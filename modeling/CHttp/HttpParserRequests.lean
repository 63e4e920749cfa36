import CHttp.HttpParserMessage

/-! Requests: what arrives is what was sent, however it was cut. -/
namespace CHttp

/-- A text, given in fragments, without NUL and below 1 MiB. -/
def CleanText (frags : List Bytes) : Prop :=
  0 ∉ frags.flatten ∧ frags.flatten.length < 1024*1024

instance (frags : List Bytes) : Decidable (CleanText frags) :=
  inferInstanceAs (Decidable (_ ∧ _))

/-- A request of clean texts, without trailers. -/
structure MessageFrags.CleanRequest (f : MessageFrags) (url : List Bytes) : Prop where
  start : f.start = .request url
  url_clean : CleanText url
  headers : ∀ h ∈ f.headers, CleanText h.name ∧ CleanText h.value
  trailers : f.trailers = []

/-- The message handed over for a request holds exactly that request. -/
structure MessageFrags.Assembled (f : MessageFrags) (url : List Bytes) (d : HttpMessage) :
    Prop where
  isRequest : d.isRequest = true
  method : d.method = f.method
  minor : d.minorVers = f.httpMinor
  target : d.target.data = url.flatten
  reason : d.reason.data = []
  headers : d.headers = f.headers.map fun h => ⟨h.name.flatten.map toupper, h.value.flatten⟩
  body : d.bodyContent = f.body.flatten.map some

theorem MessageFrags.CleanRequest.short {f : MessageFrags} {url : List Bytes}
    (h : f.CleanRequest url) : f.ShortRequest bytesRoom url where
  start := h.start
  url := bytesRoom_always h.url_clean.2.le
  fields := by
    rw [h.trailers, List.append_nil]
    intro x hx
    obtain ⟨hname, hvalue⟩ := h.headers x hx
    exact ⟨bytesRoom_always hname.2.le, bytesRoom_always hvalue.2.le⟩

theorem MessageFrags.CleanRequest.assembled {f : MessageFrags} {url : List Bytes}
    (h : f.CleanRequest url) {junk : MessageMem} {d : HttpMessage} (hd : f.Delivered junk d) :
    f.Assembled url d := by
  have hstart := hd.start
  rw [h.start] at hstart
  obtain ⟨hreq, hmethod, htarget, hreason⟩ := hstart
  refine ⟨hreq, hmethod, hd.minor, ?_, hreason, ?_, hd.body.content⟩
  · rw [htarget, (cstr_eq_self_iff _).mpr h.url_clean.1]
  · rw [hd.headers, h.trailers, List.map_nil, List.dropLast_nil, List.append_nil]
    rfl

/-- Any number of requests through one parser whose buffers are byte strings: the handler gets
each of them once, in order and whole, for every choice of fragments. -/
theorem requests_assembled (mem : ℕ → MessageMem) (rs : List (MessageFrags × List Bytes))
    (hrs : ∀ r ∈ rs, r.1.CleanRequest r.2) :
    ∃ q, runCallbacks cbufferAppendBytes mem httpMessageParserNew
        (rs.flatMap fun r => r.1.callbacks) = .ok q ∧
      List.Forall₂ (fun r d => r.1.Assembled r.2 d) rs q.handled := by
  have hnew := run_new_okIff mem cbufferAppendBytes_appends rs Prod.fst
  obtain ⟨q, hrun⟩ := hnew.iff.mpr (admits_of_short _ _ newCapacities_grown (by
    intro f hf
    obtain ⟨r, hr, rfl⟩ := List.mem_map.mp hf
    exact ⟨r.2, (hrs r hr).short⟩))
  obtain ⟨-, hall⟩ := hnew.result q hrun
  refine ⟨q, hrun, ((List.forall₂_and_left _ _).mpr ⟨hrs, hall⟩).imp ?_⟩
  rintro r d ⟨hclean, k, hdel⟩
  exact hclean.assembled hdel

/-- A POST whose URL, header and body are all cut in two. -/
def splitPost : MessageFrags where
  start := .request [ascii "/up", ascii "load"]
  httpMajor := 1
  httpMinor := 1
  method := .post
  headers := [⟨[ascii "Ho", ascii "st"], [ascii "a", ascii "b"], by decide, by decide⟩]
  body := [ascii "xy", ascii "z"]
  trailers := []
  start_ok := (by decide : [ascii "/up", ascii "load"].flatten ≠ [])
  body_ok := by decide

theorem requests_assembled_splitPost :
    ∃ q, runCallbacks cbufferAppendBytes (fun _ => ⟨false, 0, .get⟩) httpMessageParserNew
        ([(splitPost, [ascii "/up", ascii "load"]), (splitPost, [ascii "/up", ascii "load"])].flatMap
          fun r => r.1.callbacks) = .ok q ∧
      List.Forall₂ (fun r d => r.1.Assembled r.2 d)
        [(splitPost, [ascii "/up", ascii "load"]), (splitPost, [ascii "/up", ascii "load"])]
        q.handled := by
  have hclean : splitPost.CleanRequest [ascii "/up", ascii "load"] :=
    ⟨rfl, by decide, by decide, rfl⟩
  refine requests_assembled _ _ ?_
  intro r hr
  have hr' : r = (splitPost, [ascii "/up", ascii "load"]) := by simpa using hr
  rw [hr']
  exact hclean

end CHttp
