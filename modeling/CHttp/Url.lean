import CHttp.Cbuffer
import CHttp.UrlLanguage

/-! `Url_new`, the parser's caller: each field of a URL in a buffer of its own. -/
namespace CHttp

/-- `Url_t`. -/
structure Url where
  scheme : Cbuffer
  userInfo : Cbuffer
  host : Cbuffer
  path : Cbuffer
  port : Cbuffer
  fragement : Cbuffer
  query : Cbuffer
  deriving DecidableEq

/-- The bytes of a field, read from the C string and its NUL. -/
def urlFieldBytes (url : Bytes) (d : UrlFieldData) : Res Bytes :=
  if d.off.toNat+d.len.toNat ≤ url.length+1 then
    .ok (((url ++ [0]).drop d.off.toNat).take d.len.toNat)
  else .error .outOfBounds

/-- A new buffer, filled unless the field's length is zero. -/
def urlFieldBuffer (url : Bytes) (d : UrlFieldData) : Res Cbuffer :=
  if d.len ≠ 0 then do
    let bytes ← urlFieldBytes url d
    cbufferAppend cbufferNew bytes
  else .ok cbufferNew

/-- What `c_http_parser_parse_url` returns is not looked at. -/
def urlNew (url : Bytes) : Res Url := do
  let (_, u) ← cHttpParserParseUrl (cstr url) false cHttpParserUrlInit
  let scheme ← urlFieldBuffer url (u.fieldData .schema)
  let userInfo ← urlFieldBuffer url (u.fieldData .userinfo)
  let host ← urlFieldBuffer url (u.fieldData .host)
  let path ← urlFieldBuffer url (u.fieldData .path)
  let port ← urlFieldBuffer url (u.fieldData .port)
  let fragement ← urlFieldBuffer url (u.fieldData .fragment)
  let query ← urlFieldBuffer url (u.fieldData .query)
  .ok ⟨scheme, userInfo, host, path, port, fragement, query⟩

def Url.component (r : Url) : UrlField → Cbuffer
  | .schema => r.scheme
  | .userinfo => r.userInfo
  | .host => r.host
  | .path => r.path
  | .port => r.port
  | .fragment => r.fragement
  | .query => r.query

/-- The bytes of a field that lies inside the string. -/
def UrlFieldData.slice (d : UrlFieldData) (text : Bytes) : Bytes :=
  (text.drop d.off.toNat).take d.len.toNat

theorem UrlFieldData.length_slice (d : UrlFieldData) {text : Bytes} (h : d.EndsBy text.length) :
    (d.slice text).length = d.len.toNat := by
  rw [UrlFieldData.EndsBy] at h
  rw [UrlFieldData.slice, List.length_take, List.length_drop]
  omega

/-- A new buffer has room for bytes and their terminator exactly below 512 bytes. -/
theorem cbufferNew_takes_iff (d : Bytes) :
    cbufferNew.sizes.Takes blockRoom d ↔ d.length < 512 := by
  have hsizes : cbufferNew.sizes.Takes blockRoom d ↔ d = [] ∨ 0+d.length < 512 := Iff.rfl
  rw [hsizes, Nat.zero_add]
  refine or_iff_right_of_imp fun hd => ?_
  rw [hd]
  decide

/-- A field inside the string is copied exactly if it is below 512 bytes. -/
theorem urlFieldBuffer_okIff (url : Bytes) (d : UrlFieldData) (h : d.EndsBy (cstr url).length) :
    OkIff (urlFieldBuffer url d) (fun cbuf => cbuf.data = d.slice (cstr url)) (d.len.toNat < 512) := by
  rw [urlFieldBuffer]
  split_ifs with hlen
  · obtain ⟨rest, hrest⟩ : cstr url <+: url ++ [0] :=
      (List.takeWhile_prefix _).trans (List.prefix_append _ _)
    have hbytes : urlFieldBytes url d = .ok (d.slice (cstr url)) := by
      have hle := cstr_length_le url
      rw [UrlFieldData.EndsBy] at h
      rw [urlFieldBytes, if_pos (by omega), UrlFieldData.slice, ← hrest,
        List.drop_append_of_le_length (by omega), List.take_append_of_le_length (by
          rw [List.length_drop]; omega)]
    have happend := (cbufferAppend_appends cbufferNew (d.slice (cstr url))).congr
      (cbufferNew_takes_iff _)
    rw [d.length_slice h] at happend
    rw [hbytes, ok_bind]
    exact happend.imp fun cbuf hcbuf => hcbuf.data
  · have hzero : d.len = 0 := not_not.mp hlen
    refine .of_ok rfl ?_ (by rw [hzero]; decide)
    rw [UrlFieldData.slice, hzero]
    exact List.take_zero.symm

/-- The buffers hold what the parser's record names. -/
theorem urlNew_slices (url : Bytes) (res : ℤ) (u : ParserUrl)
    (hparse : cHttpParserParseUrl (cstr url) false cHttpParserUrlInit = .ok (res, u))
    (h : ∀ f, (u.fieldData f).EndsBy (cstr url).length) :
    OkIff (urlNew url) (fun r => ∀ f, (r.component f).data = (u.fieldData f).slice (cstr url))
      (∀ f, (u.fieldData f).len.toNat < 512) := by
  have hfield (f : UrlField) := urlFieldBuffer_okIff url (u.fieldData f) (h f)
  rw [urlNew, hparse, ok_bind]
  dsimp only
  refine OkIff.congr ((hfield .schema).andThen fun scheme hscheme =>
    (hfield .userinfo).andThen fun userInfo huserInfo => (hfield .host).andThen fun host hhost =>
    (hfield .path).andThen fun path hpath => (hfield .port).andThen fun port hport =>
    (hfield .fragment).andThen fun fragement hfragement => (hfield .query).bind
      (Url.mk scheme userInfo host path port fragement) fun query hquery => ?_) ?_
  · intro f
    cases f <;> assumption
  · constructor
    · rintro ⟨hscheme, huserInfo, hhost, hpath, hport, hfragement, hquery⟩ f
      cases f <;> assumption
    · intro hall
      exact ⟨hall _, hall _, hall _, hall _, hall _, hall _, hall _⟩

/-- Whatever string it is given, and whether the parser accepts it or not, `Url_new` returns
exactly if each component that the parser has found is below 512 bytes, and then every component
it holds is a part of the string. -/
theorem url_new_returns (url : Bytes) :
    ∃ res u, cHttpParserParseUrl (cstr url) false cHttpParserUrlInit = .ok (res, u) ∧
      OkIff (urlNew url) (fun r => ∀ f, (r.component f).data <:+: cstr url)
        (∀ f, (u.fieldData f).len.toNat < 512) := by
  obtain ⟨res, u, hparse, hends⟩ : ∃ res u,
      cHttpParserParseUrl (cstr url) false cHttpParserUrlInit = .ok (res, u) ∧
        ∀ f, (u.fieldData f).EndsBy (cstr url).length := by
    by_cases hempty : cstr url = []
    · refine ⟨1, cHttpParserUrlInit, ?_, fun f => Nat.zero_le _⟩
      rw [hempty]
      rfl
    · obtain ⟨res, u, hparse, hwithin⟩ := parse_url_within (cstr url) hempty false cHttpParserUrlInit
      refine ⟨res, u, hparse, fun f => ?_⟩
      by_cases hf : f ∈ u.fieldSet
      · exact hwithin.fits f hf
      · rw [hwithin.frame f hf]
        exact Nat.zero_le _
  refine ⟨res, u, hparse, (urlNew_slices url res u hparse hends).imp fun r hdata f => ?_⟩
  rw [hdata]
  exact (List.take_prefix _ _).isInfix.trans (List.drop_suffix _ _).isInfix

section components

/-- The component that a field is to hold; empty if the URL does not have it. -/
def UrlParts.component (p : UrlParts) : UrlField → Bytes
  | .schema => (p.base.map fun b => b.1.val).getD []
  | .userinfo => ((p.base.bind fun b => b.2.userinfo).map Subtype.val).getD []
  | .host => (p.base.map fun b => b.2.host.fieldText).getD []
  | .port => ((p.base.bind fun b => b.2.port).map Subtype.val).getD []
  | .path => p.tail.path
  | .query => p.tail.query.getD []
  | .fragment => (p.tail.fragment.map Prod.snd).getD []

theorem UrlParts.pieces_nodup (p : UrlParts) : (labels p.pieces).Nodup := by
  obtain ⟨base, tail, hstart, hport⟩ := p
  cases base with
  | none => exact (labels_tail_sublist tail).nodup (by decide)
  | some b => exact urlPieces_nodup (UrlFront.absolute b.1) b.2 tail

theorem tail_component_mem (tail : UrlTail) :
    (some UrlField.path, tail.path) ∈ tail.pieces ∧
    ((some UrlField.query, tail.query.getD []) ∈ tail.pieces ∨
      UrlField.query ∉ labels tail.pieces ∧ tail.query.getD [] = []) ∧
    ((some UrlField.fragment, (tail.fragment.map Prod.snd).getD []) ∈ tail.pieces ∨
      UrlField.fragment ∉ labels tail.pieces ∧ (tail.fragment.map Prod.snd).getD [] = []) := by
  obtain ⟨path, q, f, hpath, hq, hf, hafter⟩ := tail
  cases q <;> cases f <;> simp [UrlTail.pieces, queryPieces, fragmentPieces, labels]

theorem authority_component_mem (a : Authority) :
    ((some UrlField.userinfo, (a.userinfo.map Subtype.val).getD []) ∈ a.pieces ∨
      UrlField.userinfo ∉ labels a.pieces ∧ (a.userinfo.map Subtype.val).getD [] = []) ∧
    ((some UrlField.port, (a.port.map Subtype.val).getD []) ∈ a.pieces ∨
      UrlField.port ∉ labels a.pieces ∧ (a.port.map Subtype.val).getD [] = []) := by
  obtain ⟨userinfo, host, port⟩ := a
  cases userinfo <;> cases host <;> cases port <;>
    simp [Authority.pieces, Authority.userinfoPieces, Authority.portPieces, HostName.pieces, labels]

/-- A component is the piece with its label, or there is none. -/
theorem UrlParts.component_mem (p : UrlParts) (f : UrlField) :
    (some f, p.component f) ∈ p.pieces ∨ (f ∉ labels p.pieces ∧ p.component f = []) := by
  obtain ⟨base, tail, hstart, hport⟩ := p
  obtain ⟨hpath, hquery, hfragment⟩ := tail_component_mem tail
  cases base with
  | none =>
    have hno (g : UrlField) (hg : g ∉ ([.path, .query, .fragment] : List UrlField)) :
        g ∉ labels tail.pieces := fun h => hg ((labels_tail_sublist tail).subset h)
    cases f with
    | schema | userinfo | host | port => exact .inr ⟨hno _ (by decide), rfl⟩
    | path => exact .inl hpath
    | query => exact hquery
    | fragment => exact hfragment
  | some b =>
    obtain ⟨schema, a⟩ := b
    rw [UrlParts.pieces_absolute]
    obtain ⟨huser, hportMem⟩ := authority_component_mem a
    have htail {g : UrlField} (w : Bytes) (h : (some g, w) ∈ tail.pieces) :
        (some g, w) ∈ urlPieces (schemaPieces schema) a tail := List.mem_append_right _ h
    have hauth {g : UrlField} (w : Bytes) (h : (some g, w) ∈ a.pieces) :
        (some g, w) ∈ urlPieces (schemaPieces schema) a tail :=
      List.mem_append_left _ (List.mem_append_right _ h)
    have hno (g : UrlField) (hs : g ≠ .schema) (ha : g ∉ labels a.pieces)
        (ht : g ∉ labels tail.pieces) : g ∉ labels (urlPieces (schemaPieces schema) a tail) := by
      rw [urlPieces, labels_append, labels_append, List.mem_append, List.mem_append, not_or, not_or]
      exact ⟨⟨(UrlFront.absolute schema).not_mem g hs, ha⟩, ht⟩
    have hnotTail (g : UrlField) (hg : g ∉ ([.path, .query, .fragment] : List UrlField)) :
        g ∉ labels tail.pieces := fun h => hg ((labels_tail_sublist tail).subset h)
    have hnotAuth (g : UrlField) (hg : g ∉ ([.userinfo, .host, .port] : List UrlField)) :
        g ∉ labels a.pieces := fun h => hg ((labels_authority a).1.subset h)
    cases f with
    | schema => exact .inl (List.mem_cons_self ..)
    | userinfo =>
      exact huser.imp (hauth _) fun h => ⟨hno _ (by decide) h.1 (hnotTail _ (by decide)), h.2⟩
    | host => exact .inl (hauth _ a.host_mem)
    | port =>
      exact hportMem.imp (hauth _) fun h => ⟨hno _ (by decide) h.1 (hnotTail _ (by decide)), h.2⟩
    | path => exact .inl (htail _ hpath)
    | query => exact hquery.imp (htail _) fun h => ⟨hno _ (by decide) (hnotAuth _ (by decide)) h.1, h.2⟩
    | fragment =>
      exact hfragment.imp (htail _) fun h => ⟨hno _ (by decide) (hnotAuth _ (by decide)) h.1, h.2⟩

/-- The record of a well-formed URL names the component of every field. -/
theorem UrlParts.record_slice (p : UrlParts) (hlen : (laidText p.pieces).length < 65536)
    (f : UrlField) :
    ((laidRecord p.pieces p.portValue cHttpParserUrlInit).fieldData f).EndsBy
        (laidText p.pieces).length ∧
      ((laidRecord p.pieces p.portValue cHttpParserUrlInit).fieldData f).slice
        (laidText p.pieces) = p.component f := by
  by_cases hempty : p.component f = []
  · have hnone : laidSpan f 0 p.pieces = none := by
      rw [← Option.not_isSome_iff_eq_none, laidSpan_isSome]
      rintro ⟨w, hmem, hw⟩
      rcases p.component_mem f with hpiece | ⟨hno, -⟩
      · rw [piece_unique p.pieces_nodup hmem hpiece] at hw
        exact hw hempty
      · exact hno (mem_labels hmem)
    have hdata : (laidRecord p.pieces p.portValue cHttpParserUrlInit).fieldData f = ⟨0, 0⟩ := by
      rw [laidRecord]
      dsimp only
      rw [hnone]
      rfl
    rw [hdata, hempty]
    exact ⟨Nat.zero_le _, List.take_zero⟩
  · have hpiece := (p.component_mem f).resolve_right fun h => hempty h.2
    obtain ⟨q, hspan, hslice, hle⟩ := laidSpan_of_mem p.pieces_nodup hpiece hempty
    rw [laidRecord_of_span _ _ hspan, UrlFieldData.EndsBy, UrlFieldData.slice]
    dsimp only
    rw [uint16_toNat_ofNat (by omega), uint16_toNat_ofNat (by omega)]
    exact ⟨hle, hslice⟩

/-- NUL is in no text that the first loop survives. -/
theorem zero_not_mem_of_survives {s : UrlState} {t : Bytes} (h : Survives s t) : 0 ∉ t := by
  induction t generalizing s with
  | nil => exact List.not_mem_nil
  | cons c t ih =>
    rw [List.mem_cons, not_or]
    refine ⟨?_, ih h⟩
    rintro rfl
    have hdead : parseUrlChar s 0 = .dead := by
      cases s <;> decide +kernel
    exact step_ne_dead parseUrlChar_dead h hdead

end components

/-- The components of a well-formed URL come back out of its text, exactly if each of them is
below 512 bytes. -/
theorem url_new_components (p : UrlParts) (hlen : (laidText p.pieces).length < 65536) :
    OkIff (urlNew (laidText p.pieces)) (fun r => ∀ f, (r.component f).data = p.component f)
      (∀ f, (p.component f).length < 512) := by
  have hparse := parse_url_of_parts p hlen cHttpParserUrlInit
  have hcstr : cstr (laidText p.pieces) = laidText p.pieces :=
    (cstr_eq_self_iff _).mpr (zero_not_mem_of_survives (survives_of_accepts hparse).2)
  have hslices := urlNew_slices (laidText p.pieces) 0
    (laidRecord p.pieces p.portValue cHttpParserUrlInit) (by rw [hcstr]; exact hparse)
    (by rw [hcstr]; exact fun f => (p.record_slice hlen f).1)
  rw [hcstr] at hslices
  refine (hslices.imp fun r hdata f => ?_).congr (forall_congr' fun f => ?_)
  · rw [hdata]
    exact (p.record_slice hlen f).2
  · rw [← UrlFieldData.length_slice _ (p.record_slice hlen f).1, (p.record_slice hlen f).2]

/-- A path and a query. -/
theorem url_new_components_rooted :
    ∃ p : UrlParts, laidText p.pieces = ascii "/a?b" ∧
      ∃ r, urlNew (ascii "/a?b") = .ok r ∧ r.path.data = ascii "/a" ∧ r.query.data = ascii "b" := by
  let p : UrlParts :=
    ⟨none, ⟨ascii "/a", some (ascii "b"), none, by decide +kernel, by decide +kernel, by simp, by simp⟩,
      by decide, by simp⟩
  have hnew := url_new_components p (by decide)
  obtain ⟨r, hr⟩ := hnew.iff.mpr (by
    intro f
    cases f <;> decide)
  exact ⟨p, rfl, r, hr, hnew.result r hr .path, hnew.result r hr .query⟩

end CHttp
