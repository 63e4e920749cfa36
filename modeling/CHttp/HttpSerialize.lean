import CHttp.HttpMessage

/-! `http_message_serialize`, and the text it writes for messages whose size an
`int` can count. -/
namespace CHttp

/-- `asprintf` leaves its result pointer unset when the text outgrows `int`. -/
def asprintf (text : Bytes) : Res Bytes :=
  if text.length < 2^31 then .ok text else .error .indeterminate

/-- The conversion `%s` of `Cbuffer_data`. -/
def cbufferDataString (cbuf : Cbuffer) : Res Bytes :=
  if cbuf.terminated then .ok (cstr cbuf.data) else .error .indeterminate

def requestLine (meth target : Bytes) (major minor : ℤ) : Bytes :=
  meth ++ ascii " " ++ target ++ ascii " HTTP/" ++ fmtD major ++ ascii "." ++ fmtD minor ++ crlf

/-- The response format has two blanks behind the version. -/
def responseLine (major minor statusCode : ℤ) (reason : Bytes) : Bytes :=
  ascii "HTTP/" ++ fmtD major ++ ascii "." ++ fmtD minor ++ ascii "  " ++ fmtD statusCode ++
    ascii " " ++ reason ++ crlf

def headerLine (item : KVPair) : Bytes :=
  cstr item.label ++ ascii ": " ++ cstr item.value ++ crlf

def httpMessageFirstLine (this : HttpMessage) : Res Bytes :=
  if this.isRequest then do
    let target ← cbufferDataString this.target
    asprintf (requestLine this.method.name target this.majorVers this.minorVers)
  else do
    let reason ← cbufferDataString this.reason
    asprintf (responseLine this.majorVers this.minorVers this.statusCode reason)

def appendHeader (chain : BufferChain) (item : KVPair) : Res BufferChain := do
  let s ← asprintf (headerLine item)
  bufferChainAppendCstr chain s

def appendBody (chain : BufferChain) (body : Option BufferChain) : Res BufferChain :=
  match body with
  | none => .ok chain
  | some body =>
    -- the test is on the counter, not on the bytes
    if bufferChainSize body ≠ 0 then do
      let iobBody ← bufferChainCompact body
      .ok (bufferChainAddBack chain iobBody)
    else .ok chain

def httpMessageSerialize (this : HttpMessage) : Res IOBuffer := do
  let firstLine ← httpMessageFirstLine this
  let bcResult ← bufferChainAppendCstr bufferChainNew firstLine
  let bcResult ← this.headers.foldlM appendHeader bcResult
  let bcResult ← bufferChainAppendCstr bcResult crlf
  let bcResult ← appendBody bcResult this.body
  bufferChainCompact bcResult

/-- The first line as a text. -/
def HttpMessage.firstLineText (m : HttpMessage) : Bytes :=
  if m.isRequest then requestLine m.method.name (cstr m.target.data) m.majorVers m.minorVers
  else responseLine m.majorVers m.minorVers m.statusCode (cstr m.reason.data)

/-- Everything `http_message_serialize` writes in front of the body. -/
def HttpMessage.headText (m : HttpMessage) : Bytes :=
  m.firstLineText ++ m.headers.flatMap headerLine ++ crlf

theorem zero_not_mem_cstr (b : Bytes) : 0 ∉ cstr b := (cstr_eq_self_iff _).mp (cstr_cstr b)

/-- `%d` writes digits and perhaps a minus sign. -/
theorem fmtD_bytes (z : ℤ) (b : UInt8) (h : b ∈ fmtD z) : 45 ≤ b.toNat ∧ b.toNat ≤ 57 := by
  rw [fmtD, List.mem_append] at h
  rcases h with h | h
  · split_ifs at h with hz
    · obtain rfl := List.mem_singleton.mp h
      decide
    · simp at h
  · obtain ⟨c, hc, rfl⟩ := List.mem_map.mp h
    have hd := Nat.isDigit_of_mem_toDigits (by decide) (by decide) hc
    have hr : 48 ≤ c.toNat ∧ c.toNat ≤ 57 := by
      simpa [Char.isDigit, UInt32.le_iff_toNat_le] using hd
    have hmod : (UInt8.ofNat c.toNat).toNat = c.toNat := by
      rw [UInt8.toNat_ofNat']
      omega
    omega

theorem zero_not_mem_fmtD (z : ℤ) : 0 ∉ fmtD z := fun h => by
  have := fmtD_bytes z 0 h
  simp at this

theorem zero_not_mem_crlf : (0 : UInt8) ∉ crlf := by decide

theorem zero_not_mem_headerLine (item : KVPair) : 0 ∉ headerLine item := by
  simp only [headerLine, List.mem_append, not_or]
  exact ⟨⟨⟨zero_not_mem_cstr _, by decide⟩, zero_not_mem_cstr _⟩, zero_not_mem_crlf⟩

theorem zero_not_mem_methodName (m : LlhttpMethod) : 0 ∉ m.name := by
  cases m <;> decide

theorem zero_not_mem_firstLineText (m : HttpMessage) : 0 ∉ m.firstLineText := by
  unfold HttpMessage.firstLineText
  split_ifs
  · simp only [requestLine, List.mem_append, not_or]
    exact ⟨⟨⟨⟨⟨⟨⟨zero_not_mem_methodName _, by decide⟩, zero_not_mem_cstr _⟩, by decide⟩,
      zero_not_mem_fmtD _⟩, by decide⟩, zero_not_mem_fmtD _⟩, zero_not_mem_crlf⟩
  · simp only [responseLine, List.mem_append, not_or]
    exact ⟨⟨⟨⟨⟨⟨⟨⟨by decide, zero_not_mem_fmtD _⟩, by decide⟩, zero_not_mem_fmtD _⟩, by decide⟩,
      zero_not_mem_fmtD _⟩, by decide⟩, zero_not_mem_cstr _⟩, zero_not_mem_crlf⟩

theorem bufferChainAppendCstr_holds (chain : BufferChain) (d : List Cell) (s : Bytes)
    (h : chain.Holds d) (hs : s ≠ []) (hz : 0 ∉ s) (hl : s.length+101 < 2^31) :
    ∃ chain', bufferChainAppendCstr chain s = .ok chain' ∧ chain'.Holds (d ++ s.map some) := by
  rw [bufferChainAppendCstr, (cstr_eq_self_iff s).mpr hz]
  exact bufferChainAppend_holds chain d (s.map some) h (by simpa using hs) (by rwa [List.length_map])

theorem headerLine_ne_nil (item : KVPair) : headerLine item ≠ [] := by
  simp [headerLine, crlf]

/-- The loop over the headers appends their lines. -/
theorem appendHeader_fold (items : List KVPair) (chain : BufferChain) (d : List Cell)
    (h : chain.Holds d) (hl : ∀ item ∈ items, (headerLine item).length+101 < 2^31) :
    ∃ chain', items.foldlM appendHeader chain = .ok chain' ∧
      chain'.Holds (d ++ (items.flatMap headerLine).map some) := by
  induction items generalizing chain d with
  | nil => exact ⟨chain, rfl, by simpa using h⟩
  | cons item items ih =>
    have hlen := hl item List.mem_cons_self
    obtain ⟨mid, happ, hmid⟩ := bufferChainAppendCstr_holds chain d (headerLine item) h
      (headerLine_ne_nil item) (zero_not_mem_headerLine item) hlen
    obtain ⟨chain', hfold, hh⟩ := ih mid _ hmid fun x hx => hl x (List.mem_cons_of_mem _ hx)
    refine ⟨chain', ?_, ?_⟩
    · rw [List.foldlM_cons, appendHeader, asprintf, if_pos (by omega), ok_bind, happ, ok_bind, hfold]
    · simpa only [List.flatMap_cons, List.map_append, List.append_assoc] using hh

theorem appendBody_holds (chain : BufferChain) (d e : List Cell) (body : Option BufferChain)
    (h : chain.Holds d) (hb : BodyHolds body e) (hl : e.length+1 < 2^31) :
    ∃ chain', appendBody chain body = .ok chain' ∧ chain'.Holds (d ++ e) := by
  cases body with
  | none =>
    have he : e = [] := hb.content.symm
    exact ⟨chain, rfl, by simpa [he] using h⟩
  | some b =>
    have hholds : b.Holds e := hb
    have hsize : bufferChainSize b = e.length := by
      rw [bufferChainSize, hholds.size, cInt_natCast _ (by omega)]
    by_cases he : e = []
    · refine ⟨chain, ?_, by simpa [he] using h⟩
      simp [appendBody, hsize, he]
    · have hne : bufferChainSize b ≠ 0 := by
        rw [hsize]
        simpa using he
      obtain ⟨iob, hcompact, hiob⟩ := bufferChainCompact_holds b e hholds hl
      refine ⟨bufferChainAddBack chain iob, ?_, ?_⟩
      · simp only [appendBody, if_pos hne, hcompact, ok_bind]
      · have hseg : SegmentOk iob := by
          rw [SegmentOk, hiob.data]
          exact ⟨he, e.length, hl, hiob⟩
        simpa only [hiob.data] using bufferChainAddBack_holds chain d iob h hseg

/-- The buffer the first line is read from has its terminator. -/
def HttpMessage.FirstLineReady (m : HttpMessage) : Prop :=
  if m.isRequest then m.target.terminated = true else m.reason.terminated = true

theorem httpMessageFirstLine_ok (m : HttpMessage) (hr : m.FirstLineReady)
    (hl : m.firstLineText.length < 2^31) : httpMessageFirstLine m = .ok m.firstLineText := by
  unfold httpMessageFirstLine HttpMessage.firstLineText at *
  unfold HttpMessage.FirstLineReady at hr
  by_cases hreq : m.isRequest = true
  · simp only [if_pos hreq] at hr hl ⊢
    rw [cbufferDataString, if_pos hr, ok_bind, asprintf, if_pos hl]
  · simp only [if_neg hreq] at hr hl ⊢
    rw [cbufferDataString, if_pos hr, ok_bind, asprintf, if_pos hl]

theorem firstLineText_ne_nil (m : HttpMessage) : m.firstLineText ≠ [] := by
  unfold HttpMessage.firstLineText
  split_ifs <;> simp [requestLine, responseLine, crlf]

theorem headerLine_length_le (items : List KVPair) (item : KVPair) (h : item ∈ items) :
    (headerLine item).length ≤ (items.flatMap headerLine).length := by
  obtain ⟨s, t, rfl⟩ := List.append_of_mem h
  simp only [List.flatMap_append, List.flatMap_cons, List.length_append]
  omega

/-- Up to the body, serialising collects the head text. -/
theorem httpMessageSerialize_head (m : HttpMessage) (hr : m.FirstLineReady)
    (hl : m.headText.length+101 < 2^31) :
    ∃ chain, chain.Holds (m.headText.map some) ∧
      httpMessageSerialize m = appendBody chain m.body >>= bufferChainCompact := by
  have hparts : m.headText.length =
      m.firstLineText.length+(m.headers.flatMap headerLine).length+2 := by
    simp only [HttpMessage.headText, crlf, List.length_append, List.length_cons, List.length_nil]
  obtain ⟨b1, h1, hb1⟩ := bufferChainAppendCstr_holds bufferChainNew [] m.firstLineText
    bufferChainNew_holds (firstLineText_ne_nil m) (zero_not_mem_firstLineText m) (by omega)
  obtain ⟨b2, h2, hb2⟩ := appendHeader_fold m.headers b1 _ hb1 fun item hi => by
    have := headerLine_length_le m.headers item hi
    omega
  obtain ⟨b3, h3, hb3⟩ := bufferChainAppendCstr_holds b2 _ crlf hb2 (by decide) zero_not_mem_crlf
    (by decide)
  refine ⟨b3, ?_, ?_⟩
  · simpa [HttpMessage.headText] using hb3
  · rw [httpMessageSerialize, httpMessageFirstLine_ok m hr (by omega), ok_bind, h1, ok_bind, h2,
      ok_bind, h3, ok_bind]

/-- The serialised message is its head text followed by its body. -/
theorem httpMessageSerialize_holds (m : HttpMessage) (d : List Cell) (hr : m.FirstLineReady)
    (hb : BodyHolds m.body d) (hl : m.headText.length+d.length+101 < 2^31) :
    ∃ iob c, httpMessageSerialize m = .ok iob ∧ iob.Holds c (m.headText.map some ++ d) := by
  obtain ⟨chain, hchain, hser⟩ := httpMessageSerialize_head m hr (by omega)
  obtain ⟨whole, hbody, hwhole⟩ := appendBody_holds chain _ d m.body hchain hb (by omega)
  obtain ⟨iob, hcompact, hiob⟩ := bufferChainCompact_holds whole _ hwhole
    (by rw [List.length_append, List.length_map]; omega)
  exact ⟨iob, _, by rw [hser, hbody, ok_bind, hcompact], hiob⟩

/-- A body whose length has wrapped below -1 cannot be serialised. -/
theorem httpMessageSerialize_wrapped (m : HttpMessage) (body : BufferChain) (d : List Cell)
    (hr : m.FirstLineReady) (hm : m.body = some body) (hb : body.Holds d)
    (hl : m.headText.length+101 < 2^31) (hw : cInt d.length < -1) :
    httpMessageSerialize m = .error .allocation := by
  obtain ⟨chain, -, hser⟩ := httpMessageSerialize_head m hr hl
  have hne : bufferChainSize body ≠ 0 := by
    rw [bufferChainSize, hb.size]
    omega
  rw [hser, hm, appendBody]
  simp only [if_pos hne, bufferChainCompact_wrapped body d hb hw, error_bind]

theorem asprintf_eq_ok (text s : Bytes) :
    asprintf text = .ok s ↔ text.length < 2^31 ∧ text = s := by
  by_cases h : text.length < 2^31
  · rw [asprintf, if_pos h, Except.ok.injEq]
    exact ⟨fun he => ⟨h, he⟩, fun he => he.2⟩
  · rw [asprintf, if_neg h]
    exact ⟨fun he => (by cases he), fun he => absurd he.1 h⟩

theorem bufferChainAppendCstr_inv (chain chain' : BufferChain) (d : List Cell) (s : Bytes)
    (h : chain.Holds d) (hz : 0 ∉ s) (hl : s.length < 2^31)
    (hok : bufferChainAppendCstr chain s = .ok chain') : chain'.Holds (d ++ s.map some) := by
  rw [bufferChainAppendCstr, (cstr_eq_self_iff s).mpr hz] at hok
  exact bufferChainAppend_inv chain chain' d (s.map some) h (by rwa [List.length_map]) hok

theorem appendHeader_fold_inv (items : List KVPair) (chain chain' : BufferChain) (d : List Cell)
    (h : chain.Holds d) (hok : items.foldlM appendHeader chain = .ok chain') :
    chain'.Holds (d ++ (items.flatMap headerLine).map some) := by
  induction items generalizing chain d with
  | nil =>
    obtain rfl := Except.ok.inj hok
    simpa using h
  | cons item items ih =>
    rw [List.foldlM_cons] at hok
    obtain ⟨mid, happ, hok⟩ := (bind_eq_ok _ _ _).mp hok
    obtain ⟨s, hs, happ⟩ := (bind_eq_ok _ _ _).mp happ
    obtain ⟨hl, rfl⟩ := (asprintf_eq_ok _ _).mp hs
    have hmid := bufferChainAppendCstr_inv chain mid d _ h (zero_not_mem_headerLine item) hl happ
    simpa only [List.flatMap_cons, List.map_append, List.append_assoc] using ih mid _ hmid hok

theorem appendBody_inv (chain chain' : BufferChain) (d e : List Cell) (body : Option BufferChain)
    (h : chain.Holds d) (hb : BodyHolds body e) (hl : cInt e.length = 0 → e = [])
    (hok : appendBody chain body = .ok chain') : chain'.Holds (d ++ e) := by
  cases body with
  | none =>
    have he : e = [] := hb.content.symm
    obtain rfl := Except.ok.inj hok
    simpa [he] using h
  | some b =>
    have hholds : b.Holds e := hb
    simp only [appendBody, bufferChainSize, hholds.size] at hok
    split_ifs at hok with hz
    · obtain ⟨iob, hcompact, hok⟩ := (bind_eq_ok _ _ _).mp hok
      obtain rfl := Except.ok.inj hok
      obtain ⟨c, hc, hiob⟩ := bufferChainCompact_inv b e hholds iob hcompact
      have hne : e ≠ [] := by
        rintro rfl
        exact hz rfl
      have hseg : SegmentOk iob := by
        rw [SegmentOk, hiob.data]
        exact ⟨hne, c, hc, hiob⟩
      simpa only [hiob.data] using bufferChainAddBack_holds chain d iob h hseg
    · obtain rfl := Except.ok.inj hok
      rw [hl (not_not.mp hz), List.append_nil]
      exact h

theorem httpMessageFirstLine_inv (m : HttpMessage) (s : Bytes)
    (h : httpMessageFirstLine m = .ok s) : s = m.firstLineText ∧ s.length < 2^31 := by
  unfold httpMessageFirstLine cbufferDataString at h
  unfold HttpMessage.firstLineText
  split_ifs at h ⊢ with hreq hterm hterm
  · rw [ok_bind, asprintf_eq_ok] at h
    exact ⟨h.2.symm, h.2 ▸ h.1⟩
  · cases h
  · rw [ok_bind, asprintf_eq_ok] at h
    exact ⟨h.2.symm, h.2 ▸ h.1⟩
  · cases h

/-- Whatever a successful serialisation returns, it is the head text followed by the body, unless
the counter takes the body for none. -/
theorem httpMessageSerialize_inv (m : HttpMessage) (e : List Cell) (hb : BodyHolds m.body e)
    (hl : cInt e.length = 0 → e = []) (iob : IOBuffer) (h : httpMessageSerialize m = .ok iob) :
    iobufferData iob = m.headText.map some ++ e := by
  simp only [httpMessageSerialize, bind_eq_ok] at h
  obtain ⟨s, hs, b1, h1, b2, h2, b3, h3, b4, h4, h⟩ := h
  obtain ⟨rfl, hsl⟩ := httpMessageFirstLine_inv m s hs
  have hb1 := bufferChainAppendCstr_inv _ b1 [] _ bufferChainNew_holds
    (zero_not_mem_firstLineText m) hsl h1
  have hb2 := appendHeader_fold_inv m.headers b1 b2 _ hb1 h2
  have hcrlf : crlf.length < 2^31 := by norm_num [crlf]
  have hb3 := bufferChainAppendCstr_inv b2 b3 _ crlf hb2 zero_not_mem_crlf hcrlf h3
  have hb4 := appendBody_inv b3 b4 _ e m.body hb3 hb hl h4
  obtain ⟨c, -, hiob⟩ := bufferChainCompact_inv b4 _ hb4 iob h
  rw [hiob.data]
  simp [HttpMessage.headText]

end CHttp
