import CHttp.UrlPieces

/-! The language that the URL parser accepts and the fields it reports, exactly, for buffers
whose offsets fit a `uint16_t`. -/
namespace CHttp

/-- The state in which the first loop starts. -/
def urlInitial (isConnect : Bool) : UrlState := if isConnect then .serverStart else .spacesBeforeUrl

theorem urlInitial_ne_dead (isConnect : Bool) : urlInitial isConnect ≠ .dead := by
  cases isConnect <;> decide

/-- The first loop over a text that drives it. -/
theorem urlLoop_record {isConnect : Bool} {ps : List UrlPiece}
    (h : Drives parseUrlChar urlLabel (urlInitial isConnect) ps) (hnodup : (labels ps).Nodup)
    (u₀ : ParserUrl) :
    ∃ oldUf s, s ≠ UrlState.dead ∧ urlLoop 0 (UrlLocals.init isConnect u₀) (laidText ps) =
      .ok ⟨s, oldUf, sawAt (urlInitial isConnect) (laidText ps), laidRecord ps 0 u₀⟩ := by
  obtain ⟨oldUf, hloop⟩ := urlLoop_pieces ps 0 (UrlLocals.init isConnect u₀) h hnodup nofun
  rw [recordFrom_eq_laidRecord ps (UrlLocals.init isConnect u₀).u hnodup rfl] at hloop
  exact ⟨oldUf, _, drives_live rfl (urlInitial_ne_dead isConnect) h, hloop⟩

/-- What stands in front of the server part. -/
structure UrlFront (isConnect : Bool) (front : List UrlPiece) : Prop where
  drives : Drives parseUrlChar urlLabel (urlInitial isConnect) front
  ends : (laidText front).foldl parseUrlChar (urlInitial isConnect) = .serverStart
  labels : (labels front).Sublist [.schema]
  schema : isConnect = false → ∃ w, (some .schema, w) ∈ front ∧ w ≠ []

theorem UrlFront.connect : UrlFront true [] := ⟨trivial, rfl, List.nil_sublist _, nofun⟩

def schemaPieces (schema : Word isAlpha) : List UrlPiece :=
  [(some .schema, schema.val), (none, ascii "://")]

theorem visits_schema (schema : Word isAlpha) :
    Visits parseUrlChar urlLabel (some .schema) .spacesBeforeUrl schema.val ∧
      schema.val.foldl parseUrlChar .spacesBeforeUrl = .schema := by
  have hfirst : ∀ c ∈ schema.val, parseUrlChar .spacesBeforeUrl c = .schema := by
    intro c hc
    have halpha := schema.property.2 c hc
    have hne : ¬(c = 47 ∨ c = 42) := by
      rintro (rfl | rfl) <;> exact absurd halpha (by decide)
    rw [parseUrlChar_eq, urlSwitch, if_neg hne, if_pos halpha]
  have hmore : ∀ c ∈ schema.val, parseUrlChar .schema c = .schema := by
    intro c hc
    rw [parseUrlChar_eq, urlSwitch, if_pos (schema.property.2 c hc)]
  exact ⟨visits_of_stays hfirst hmore rfl, foldl_of_stays schema.property.1 hfirst hmore⟩

theorem UrlFront.absolute (schema : Word isAlpha) : UrlFront false (schemaPieces schema) := by
  obtain ⟨hvisits, hend⟩ := visits_schema schema
  refine ⟨⟨hvisits, ?_, trivial⟩, ?_, List.Sublist.refl _,
    fun _ => ⟨schema.val, List.mem_cons_self .., schema.property.1⟩⟩
  · change Visits parseUrlChar urlLabel none (schema.val.foldl parseUrlChar .spacesBeforeUrl) _
    rw [hend]
    exact ⟨rfl, rfl, rfl, trivial⟩
  · rw [schemaPieces, laidText_cons, laidText_cons, laidText_nil, List.append_nil,
      List.foldl_append, urlInitial, if_neg Bool.false_ne_true, hend]
    rfl

section server

variable {isConnect : Bool} {front : List UrlPiece} (hfront : UrlFront isConnect front)
  (tail : UrlTail) (u₀ : ParserUrl)

/-- The pieces that the first loop sees: the server part is one field. -/
def serverPieces (front : List UrlPiece) (sv : Bytes) (tail : UrlTail) : List UrlPiece :=
  front ++ (some .host, sv) :: tail.pieces

theorem serverPieces_text (front : List UrlPiece) (sv : Bytes) :
    laidText (serverPieces front sv tail) = laidText front ++ (sv ++ laidText tail.pieces) := by
  rw [serverPieces, laidText_append, laidText_cons]

include hfront

theorem serverPieces_labels (sv : Bytes) :
    (labels (serverPieces front sv tail)).Sublist [.schema, .host, .path, .query, .fragment] := by
  rw [serverPieces, labels_append, labels_some]
  exact hfront.labels.append ((labels_tail_sublist tail).cons_cons UrlField.host)

theorem UrlFront.not_mem (f : UrlField) (hf : f ≠ .schema) : f ∉ CHttp.labels front :=
  fun h => hf (List.mem_singleton.mp (hfront.labels.subset h))

theorem serverPieces_nodup (sv : Bytes) : (labels (serverPieces front sv tail)).Nodup :=
  (serverPieces_labels hfront tail sv).nodup (by decide)

/-- The first loop over a URL with a server part. -/
theorem urlLoop_server (sv : Bytes) (hsv : ServerText sv) (hfollows : tail.followsServer) :
    ∃ oldUf s, s ≠ UrlState.dead ∧
      urlLoop 0 (UrlLocals.init isConnect u₀) (laidText (serverPieces front sv tail)) =
        .ok ⟨s, oldUf, decide (64 ∈ sv), laidRecord (serverPieces front sv tail) 0 u₀⟩ := by
  obtain ⟨hvisits, hsaw, hin⟩ := visits_server rfl sv hsv.chars hsv.survives
  have htail := drives_tail_server hin tail hfollows
  have hdrives : Drives parseUrlChar urlLabel (urlInitial isConnect)
      (serverPieces front sv tail) := by
    refine drives_append hfront.drives ?_
    rw [hfront.ends]
    exact ⟨hvisits, htail⟩
  have hat : sawAt (urlInitial isConnect) (laidText (serverPieces front sv tail)) =
      decide (64 ∈ sv) := by
    have hno : UrlField.host ∉ labels tail.pieces :=
      fun h => absurd ((labels_tail_sublist tail).subset h) (by decide)
    rw [serverPieces_text, sawAt_append, sawAt_of_drives (hfront.not_mem .host (by decide)) hfront.drives,
      hfront.ends, sawAt_append, hsaw, sawAt_of_drives hno htail, Bool.false_or, Bool.or_false]
  have hloop := urlLoop_record hdrives (serverPieces_nodup hfront tail sv) u₀
  rw [hat] at hloop
  exact hloop

/-- Where the first loop has put the server part. -/
theorem serverPieces_host (sv : Bytes) (hsv : sv ≠ []) :
    laidSpan .host 0 (serverPieces front sv tail) =
      some ((laidText front).length, sv.length) := by
  rw [serverPieces, laidSpan_append, laidSpan_of_not_mem .host front 0
    (hfront.not_mem .host (by decide)), Option.none_or, laidSpan, if_pos ⟨rfl, by simpa using hsv⟩,
    Nat.zero_add]

/-- The host is parsed from the bytes of the server part. -/
theorem parseAuthority_server (sv : Bytes) (hsv : sv ≠ [])
    (hlen : (laidText (serverPieces front sv tail)).length < 65536) (s : UrlState)
    (oldUf : Option UrlField) (foundAt : Bool) :
    parseAuthority (laidText (serverPieces front sv tail))
        ⟨s, oldUf, foundAt, laidRecord (serverPieces front sv tail) 0 u₀⟩ =
      .ok (if (sv.foldl cHttpParseHostChar (hostInitial foundAt)).final then 0 else 1,
        (hostScan (laidText front).length (hostInitial foundAt)
          ((laidRecord (serverPieces front sv tail) 0 u₀).clearLen .host) sv).2) := by
  have hspan := serverPieces_host hfront tail sv hsv
  have hmem : UrlField.host ∈ (laidRecord (serverPieces front sv tail) 0 u₀).fieldSet := by
    rw [laidRecord_field, hspan]
    rfl
  have hdata : (laidRecord (serverPieces front sv tail) 0 u₀).fieldData .host =
      ⟨UInt16.ofNat (laidText front).length, UInt16.ofNat sv.length⟩ :=
    laidRecord_of_span 0 u₀ hspan
  rw [serverPieces_text, List.length_append, List.length_append] at hlen
  have hoff : (UInt16.ofNat (laidText front).length).toNat = (laidText front).length :=
    uint16_toNat_ofNat (by omega)
  have hcount : (UInt16.ofNat sv.length).toNat = sv.length :=
    uint16_toNat_ofNat (by omega)
  have hslice : ((laidText (serverPieces front sv tail)).drop (laidText front).length).take
      sv.length = sv := by
    rw [serverPieces_text, List.drop_left, List.take_left]
  have hscan := hostScan_state sv (laidText front).length (hostInitial foundAt)
    ((laidRecord (serverPieces front sv tail) 0 u₀).clearLen .host)
  rw [parseAuthority, if_neg (fun h => h.2 hmem), if_pos hmem, cHttpParseHost,
    decide_eq_true hmem, cAssert_true, ok_bind, hdata, hoff, hcount,
    show (if foundAt = true then HttpHostState.userinfoStart else .hostStart) = hostInitial foundAt
      from rfl, hostLoop_slice _ sv _ _ _ _ hslice rfl, ok_bind, ← hscan]

end server

section authority

variable {isConnect : Bool} {front : List UrlPiece} (hfront : UrlFront isConnect front)
  (a : Authority) (tail : UrlTail) (u₀ : ParserUrl)

/-- The pieces of a URL with a server part. -/
def urlPieces (front : List UrlPiece) (a : Authority) (tail : UrlTail) : List UrlPiece :=
  front ++ a.pieces ++ tail.pieces

theorem urlPieces_text (front : List UrlPiece) :
    laidText (urlPieces front a tail) = laidText (serverPieces front (laidText a.pieces) tail) := by
  rw [serverPieces_text, urlPieces, laidText_append, laidText_append, List.append_assoc]

theorem urlPieces_port (front : List UrlPiece) {d : Word isNum} (hd : a.port = some d) :
    (some UrlField.port, d.val) ∈ urlPieces front a tail := by
  rw [urlPieces, Authority.pieces, Authority.portPieces, hd]
  simp

include hfront

theorem urlPieces_no_port (hd : a.port = none) :
    UrlField.port ∉ labels (urlPieces front a tail) := by
  rw [urlPieces, labels_append, labels_append, List.mem_append, List.mem_append, not_or, not_or]
  refine ⟨⟨hfront.not_mem .port nofun, ?_⟩,
    fun h => absurd ((labels_tail_sublist tail).subset h) (by decide)⟩
  rw [Authority.pieces, Authority.portPieces, hd, Authority.userinfoPieces]
  cases a.userinfo <;> cases a.host <;> simp [HostName.pieces, labels]

theorem urlPieces_nodup : (labels (urlPieces front a tail)).Nodup := by
  have hsub : (labels (urlPieces front a tail)).Sublist
      [.schema, .userinfo, .host, .port, .path, .query, .fragment] := by
    rw [urlPieces, labels_append, labels_append]
    exact (hfront.labels.append (labels_authority a).1).append (labels_tail_sublist tail)
  exact hsub.nodup (by decide)

/-- The fields of the authority stand nowhere else. -/
theorem urlPieces_disjoint (f : UrlField) (hf : f ∈ labels a.pieces) :
    f ∉ labels front ∧ f ∉ labels tail.pieces := by
  have hauth := (labels_authority a).1.subset hf
  constructor
  · intro h
    rw [List.mem_singleton.mp (hfront.labels.subset h)] at hauth
    exact absurd hauth (by decide)
  · intro h
    have htail := (labels_tail_sublist tail).subset h
    revert hauth htail
    cases f <;> decide

/-- The record of the server part, refined by the pieces of the authority, is the record of
the URL. -/
theorem record_refines :
    recordFrom (laidText front).length a.pieces
      ((laidRecord (serverPieces front (laidText a.pieces) tail) 0 u₀).clearLen .host) =
    laidRecord (urlPieces front a tail) 0 u₀ := by
  have hnodup : (labels a.pieces).Nodup := (labels_authority a).1.nodup (by decide)
  apply ParserUrl.ext_fields
  · exact recordFrom_port _ _ _
  · intro f
    obtain ⟨hdata, hset⟩ := recordFrom_field f (laidText front).length a.pieces
      ((laidRecord (serverPieces front (laidText a.pieces) tail) 0 u₀).clearLen .host) hnodup
    have hspan : laidSpan f 0 (urlPieces front a tail) =
        ((laidSpan f 0 front).or (laidSpan f (laidText front).length a.pieces)).or
          (laidSpan f ((laidText front).length+(laidText a.pieces).length) tail.pieces) := by
      rw [urlPieces, laidSpan_append, laidSpan_append, laidText_append, List.length_append,
        Nat.zero_add, Nat.zero_add]
    rw [ParserUrl.clearLen_fieldSet, laidRecord_field] at hset
    rw [hset, laidRecord_field, hdata, hspan]
    by_cases hhost : f = .host
    · have hff : laidSpan f 0 front = none := by
        rw [hhost]
        exact laidSpan_of_not_mem .host front 0 (hfront.not_mem .host (by decide))
      obtain ⟨⟨q, n⟩, hq⟩ := Option.isSome_iff_exists.mp
        ((laidSpan_isSome .host a.pieces (laidText front).length).mpr
          ⟨a.host.fieldText, a.host_mem, a.host.fieldText_ne_nil⟩)
      rw [← hhost] at hq
      rw [hff, hq, Option.none_or, Option.some_or] at hspan
      rw [hff, hq, laidRecord_of_span 0 u₀ hspan]
      exact ⟨rfl, iff_of_true (.inr rfl) rfl⟩
    · rw [ParserUrl.clearLen_of_ne _ _ _ hhost]
      have hcoarse : laidSpan f 0 (serverPieces front (laidText a.pieces) tail) =
          (laidSpan f 0 front).or
            (laidSpan f ((laidText front).length+(laidText a.pieces).length) tail.pieces) := by
        rw [serverPieces, laidSpan_append, laidSpan,
          if_neg (fun h => hhost (Option.some.inj h.1).symm), Nat.zero_add]
      rw [laidRecord, laidRecord]
      dsimp only
      rw [hcoarse, hspan]
      by_cases hauth : f ∈ labels a.pieces
      · have hff : laidSpan f 0 front = none := by
          refine laidSpan_of_not_mem f front 0 fun h => ?_
          exact (urlPieces_disjoint hfront a tail f hauth).1 h
        have hft (p : ℕ) : laidSpan f p tail.pieces = none :=
          laidSpan_of_not_mem f tail.pieces p (urlPieces_disjoint hfront a tail f hauth).2
        rw [hff, hft, Option.none_or, Option.none_or, Option.or_none]
        cases laidSpan f (laidText front).length a.pieces with
        | none => exact ⟨rfl, or_self_iff⟩
        | some q => exact ⟨rfl, iff_of_true (.inr rfl) rfl⟩
      · rw [laidSpan_of_not_mem f a.pieces _ hauth, Option.or_none]
        refine ⟨rfl, ?_⟩
        rw [or_iff_left (by rintro ⟨⟩)]

/-- The host of a well-formed URL is accepted, and the record is that of all its pieces. -/
theorem parseAuthority_url (hlen : (laidText (urlPieces front a tail)).length < 65536)
    (s : UrlState) (oldUf : Option UrlField) :
    parseAuthority (laidText (urlPieces front a tail)) ⟨s, oldUf, a.userinfo.isSome,
        laidRecord (serverPieces front (laidText a.pieces) tail) 0 u₀⟩ =
      .ok (0, laidRecord (urlPieces front a tail) 0 u₀) := by
  obtain ⟨hdrives, hends⟩ := drives_authority a
  have hset : UrlField.host ∈
      (laidRecord (serverPieces front (laidText a.pieces) tail) 0 u₀).fieldSet := by
    rw [laidRecord_field, serverPieces_host hfront tail _ a.text_ne_nil]
    rfl
  rw [urlPieces_text] at hlen ⊢
  rw [parseAuthority_server hfront tail u₀ _ a.text_ne_nil hlen, hostScan_pieces a.pieces _ _ _ hdrives
    ((labels_authority a).1.nodup (by decide)) ?_ ?_, record_refines hfront a tail u₀]
  · rw [HostEnds] at hends
    rw [if_pos hends]
  · intro uf huf
    cases hu : a.userinfo.isSome <;> rw [hu] at huf <;> cases huf
  · intro _
    refine ⟨hset, ?_⟩
    rw [ParserUrl.clearLen_self]

/-- The port is converted, or refused for its value. -/
theorem parsePort_url (hlen : (laidText (urlPieces front a tail)).length < 65536)
    (d : Word isNum) (hd : a.port = some d) :
    parsePort (laidText (urlPieces front a tail)) (laidRecord (urlPieces front a tail) 0 u₀) =
      .ok (if decimalValue d.val ≤ 0xffff then (0, laidRecord (urlPieces front a tail) a.portValue u₀)
        else (1, laidRecord (urlPieces front a tail) 0 u₀)) := by
  have hmem := urlPieces_port a tail front hd
  obtain ⟨p, hspan, hslice, hle⟩ := laidSpan_of_mem (urlPieces_nodup hfront a tail) hmem d.property.1
  have hdata : (laidRecord (urlPieces front a tail) 0 u₀).fieldData .port =
      ⟨UInt16.ofNat p, UInt16.ofNat d.val.length⟩ :=
    laidRecord_of_span 0 u₀ hspan
  have hoff : (UInt16.ofNat p).toNat = p :=
    uint16_toNat_ofNat (by omega)
  have hcount : (UInt16.ofNat d.val.length).toNat = d.val.length :=
    uint16_toNat_ofNat (by omega)
  have hloop : portLoop (laidText (urlPieces front a tail)) p d.val.length 0 =
      .ok (if decimalValue d.val ≤ 0xffff then some (decimalValue d.val : ℤ) else none) :=
    portLoop_eq (laidText (urlPieces front a tail)) d.val d.property.2 p d.val.length 0 (by decide)
      hslice rfl
  rw [parsePort, hdata]
  dsimp only
  rw [hoff, hcount, decide_eq_true hle, cAssert_true, ok_bind]
  rw [hloop, ok_bind]
  by_cases hfits : decimalValue d.val ≤ 0xffff
  · rw [if_pos hfits, if_pos hfits, Authority.portValue, hd]
    rfl
  · rw [if_neg hfits, if_neg hfits]

/-- The parser on a well-formed URL with a server part, apart from the test for CONNECT. -/
theorem parse_url_server (hfollows : tail.followsServer)
    (hlen : (laidText (urlPieces front a tail)).length < 65536) :
    cHttpParserParseUrl (laidText (urlPieces front a tail)) isConnect u₀ =
      if isConnect = true ∧ (laidRecord (urlPieces front a tail) 0 u₀).fieldSet ≠ {.host, .port} then
        .ok (1, laidRecord (urlPieces front a tail) 0 u₀)
      else if a.port.all (fun d => decimalValue d.val ≤ 0xffff) then
        .ok (0, laidRecord (urlPieces front a tail) a.portValue u₀)
      else .ok (1, laidRecord (urlPieces front a tail) 0 u₀) := by
  obtain ⟨oldUf, s, hs, hloop⟩ := urlLoop_server hfront tail u₀ (laidText a.pieces) a.serverText
    hfollows
  rw [a.at_mem] at hloop
  have hne : (laidText (urlPieces front a tail)).length ≠ 0 := by
    rw [urlPieces_text, serverPieces_text, List.length_append, List.length_append]
    have hpos := List.length_pos_iff.mpr a.text_ne_nil
    omega
  rw [← urlPieces_text] at hloop
  rw [cHttpParserParseUrl, if_neg hne, hloop, ok_bind, if_neg hs, parseAuthority_url hfront a tail u₀ hlen, ok_bind]
  dsimp only
  rw [if_neg (fun h : (0 : ℤ) ≠ 0 => h rfl)]
  refine if_congr Iff.rfl rfl ?_
  cases hd : a.port with
  | none =>
    have hport : UrlField.port ∉ (laidRecord (urlPieces front a tail) 0 u₀).fieldSet := by
      rw [mem_laidRecord]
      rintro ⟨w, hmem, -⟩
      exact urlPieces_no_port hfront a tail hd (mem_labels hmem)
    rw [if_neg hport, if_pos Option.all_none, Authority.portValue, hd]
  | some d =>
    have hport := (mem_laidRecord .port (urlPieces front a tail) 0 u₀).mpr
      ⟨d.val, urlPieces_port a tail front hd, d.property.1⟩
    rw [if_pos hport, parsePort_url hfront a tail u₀ hlen d hd]
    by_cases hfits : decimalValue d.val ≤ 0xffff
    · rw [if_pos hfits, if_pos (by simpa using hfits)]
    · rw [if_neg hfits, if_neg (by simpa using hfits)]

end authority

/-- A path from the root, of any length. -/
theorem parse_url_rooted (tail : UrlTail) (hstart : tail.path.head? ∈ [some 47, some 42])
    (u₀ : ParserUrl) :
    cHttpParserParseUrl (laidText tail.pieces) false u₀ = .ok (0, laidRecord tail.pieces 0 u₀) := by
  have hpath : tail.path ≠ [] := by
    intro h
    rw [h] at hstart
    exact absurd hstart (by decide)
  have hdrives : Drives parseUrlChar urlLabel (urlInitial false) tail.pieces := by
    refine drives_tail tail ?_ fun h => absurd h hpath
    intro c hc
    rw [hc, List.mem_cons, List.mem_singleton] at hstart
    rcases hstart with h | h <;> rw [Option.some.inj h] <;> rfl
  have hnodup := (labels_tail_sublist tail).nodup (by decide)
  obtain ⟨oldUf, s, hs, hloop⟩ := urlLoop_record hdrives hnodup u₀
  have hne : (laidText tail.pieces).length ≠ 0 := by
    rw [UrlTail.text_eq, List.length_append, List.length_append]
    have hpos := List.length_pos_iff.mpr hpath
    omega
  have hno (f : UrlField) (hf : f ∉ ([.path, .query, .fragment] : List UrlField)) :
      f ∉ (laidRecord tail.pieces 0 u₀).fieldSet := by
    rw [mem_laidRecord]
    rintro ⟨w, hmem, -⟩
    exact hf ((labels_tail_sublist tail).subset (mem_labels hmem))
  rw [cHttpParserParseUrl, if_neg hne, hloop, ok_bind, if_neg hs, parseAuthority,
    if_neg (fun h => hno .schema (by decide) h.1), if_neg (hno .host (by decide)), ok_bind]
  dsimp only
  rw [if_neg (fun h : (0 : ℤ) ≠ 0 => h rfl), if_neg (fun h => Bool.false_ne_true h.1),
    if_neg (hno .port (by decide))]

theorem Authority.portFits_iff (a : Authority) :
    a.port.all (fun d => decimalValue d.val ≤ 0xffff) = true ↔ a.PortFits := by
  rw [Authority.PortFits]
  cases a.port with
  | none => exact iff_of_true rfl nofun
  | some d => simp

theorem UrlParts.pieces_absolute (schema : Word isAlpha) (a : Authority) (tail : UrlTail)
    (hstart : tail.path.head? ∈ (if (some (schema, a)).isSome then [none, some 47] else
      [some 47, some 42])) (hport : ∀ b ∈ some (schema, a), b.2.PortFits) :
    UrlParts.pieces ⟨some (schema, a), tail, hstart, hport⟩ =
      urlPieces (schemaPieces schema) a tail :=
  rfl

/-- A well-formed URL is accepted, with its components. -/
theorem parse_url_of_parts (p : UrlParts) (hlen : (laidText p.pieces).length < 65536)
    (u₀ : ParserUrl) :
    cHttpParserParseUrl (laidText p.pieces) false u₀ =
      .ok (0, laidRecord p.pieces p.portValue u₀) := by
  obtain ⟨base, tail, hstart, hport⟩ := p
  cases base with
  | none => exact parse_url_rooted tail hstart u₀
  | some b =>
    obtain ⟨schema, a⟩ := b
    rw [UrlParts.pieces_absolute] at hlen ⊢
    rw [parse_url_server (UrlFront.absolute schema) a tail u₀ hstart hlen,
      if_neg (fun h => Bool.false_ne_true h.1), if_pos (a.portFits_iff.mpr (hport _ rfl))]
    rfl

section rejected

/-- A schema without a server part is refused. -/
theorem parse_url_stub (schema : Word isAlpha) (slashes : Bytes)
    (h : slashes ∈ ([[], [58], [58, 47]] : List Bytes)) (u₀ u : ParserUrl) :
    cHttpParserParseUrl (schema.val ++ slashes) false u₀ ≠ .ok (0, u) := by
  obtain ⟨hvisits, hend⟩ := visits_schema schema
  let ps : List UrlPiece := [(some .schema, schema.val), (none, slashes)]
  have htext : laidText ps = schema.val ++ slashes := by
    rw [laidText_cons, laidText_cons, laidText_nil, List.append_nil]
  have hdrives : Drives parseUrlChar urlLabel (urlInitial false) ps := by
    refine ⟨hvisits, ?_, trivial⟩
    rw [urlInitial, if_neg Bool.false_ne_true, hend]
    simp only [List.mem_cons, List.not_mem_nil, or_false] at h
    rcases h with rfl | rfl | rfl
    · trivial
    · exact ⟨rfl, trivial⟩
    · exact ⟨rfl, rfl, trivial⟩
  have hnodup : (labels ps).Nodup := List.nodup_singleton _
  obtain ⟨oldUf, s, hs, hloop⟩ := urlLoop_record hdrives hnodup u₀
  have hschema := (mem_laidRecord .schema ps 0 u₀).mpr
    ⟨schema.val, List.mem_cons_self .., schema.property.1⟩
  have hhost : UrlField.host ∉ (laidRecord ps 0 u₀).fieldSet := by
    rw [mem_laidRecord]
    rintro ⟨w, hmem, -⟩
    cases List.mem_singleton.mp (mem_labels hmem)
  have hne : (laidText ps).length ≠ 0 := by
    rw [htext, List.length_append]
    have hpos := List.length_pos_iff.mpr schema.property.1
    omega
  rw [← htext, cHttpParserParseUrl, if_neg hne, hloop, ok_bind, if_neg hs,
    parseAuthority, if_pos ⟨hschema, hhost⟩, ok_bind]
  dsimp only
  rw [if_pos one_ne_zero]
  rintro ⟨⟩

theorem survives_of_accepts {buf : Bytes} {isConnect : Bool} {u₀ u : ParserUrl}
    (h : cHttpParserParseUrl buf isConnect u₀ = .ok (0, u)) :
    buf ≠ [] ∧ Survives (urlInitial isConnect) buf := by
  rw [cHttpParserParseUrl] at h
  split_ifs at h with hempty
  · cases h
  obtain ⟨l, hloop, h⟩ := (bind_eq_ok _ _ _).mp h
  split_ifs at h with hdead
  · cases h
  refine ⟨fun hnil => hempty (by rw [hnil]; rfl), ?_⟩
  rw [urlLoop_state buf 0 _ l hloop] at hdead
  exact hdead

variable {isConnect : Bool} {front : List UrlPiece} (hfront : UrlFront isConnect front)

include hfront

/-- An accepted URL with a server part has an authority there. -/
theorem authority_of_accepts (sv : Bytes) (hsv : ServerText sv) (tail : UrlTail)
    (hfollows : tail.followsServer)
    (hlen : (laidText (serverPieces front sv tail)).length < 65536) (u₀ u : ParserUrl)
    (h : cHttpParserParseUrl (laidText (serverPieces front sv tail)) isConnect u₀ = .ok (0, u)) :
    ∃ a : Authority, sv = laidText a.pieces := by
  obtain ⟨oldUf, s, hs, hloop⟩ := urlLoop_server hfront tail u₀ sv hsv hfollows
  have hnodup := serverPieces_nodup hfront tail sv
  have hempty : (laidText (serverPieces front sv tail)).length ≠ 0 :=
    List.length_pos_iff.mpr (survives_of_accepts h).1 |>.ne'
  rw [cHttpParserParseUrl, if_neg hempty, hloop, ok_bind, if_neg hs] at h
  by_cases hne : sv = []
  · exfalso
    have hhost : UrlField.host ∉ (laidRecord (serverPieces front sv tail) 0 u₀).fieldSet := by
      rw [mem_laidRecord]
      rintro ⟨w, hmem, hw⟩
      have hpiece : (some UrlField.host, sv) ∈ serverPieces front sv tail := by
        rw [serverPieces]
        exact List.mem_append_right _ (List.mem_cons_self ..)
      rw [piece_unique hnodup hmem hpiece] at hw
      exact hw hne
    rw [parseAuthority] at h
    cases isConnect with
    | false =>
      obtain ⟨w, hpiece, hw⟩ := hfront.schema rfl
      have hmem := (mem_laidRecord .schema (serverPieces front sv tail) 0 u₀).mpr
        ⟨w, List.mem_append_left _ hpiece, hw⟩
      rw [if_pos ⟨hmem, hhost⟩, ok_bind] at h
      dsimp only at h
      rw [if_pos one_ne_zero] at h
      cases h
    | true =>
      have hset : (laidRecord (serverPieces front sv tail) 0 u₀).fieldSet ≠ {.host, .port} :=
        fun heq => hhost (heq ▸ Finset.mem_insert_self _ _)
      rw [if_neg hhost] at h
      split_ifs at h
      · rw [ok_bind] at h
        dsimp only at h
        rw [if_pos one_ne_zero] at h
        cases h
      · rw [ok_bind] at h
        dsimp only at h
        rw [if_neg (fun h : (0 : ℤ) ≠ 0 => h rfl), if_pos ⟨rfl, hset⟩] at h
        cases h
  · rw [parseAuthority_server hfront tail u₀ sv hne hlen, ok_bind] at h
    dsimp only at h
    by_cases hfinal : (sv.foldl cHttpParseHostChar (hostInitial (decide (64 ∈ sv)))).final = true
    · obtain ⟨a, htext, -⟩ := authority_of_hostEnds hfinal
      exact ⟨a, htext⟩
    · rw [if_neg hfinal, if_pos one_ne_zero] at h
      cases h

end rejected

/-- The parser accepts a buffer of less than 2^16 bytes if and only if it is the text of a
well-formed URL, and reports exactly the URL's components: the fields that are not empty,
each by where its bytes stand, and the value of the port. -/
theorem parse_url_exact (buf : Bytes) (hlen : buf.length < 65536) (u₀ u : ParserUrl) :
    cHttpParserParseUrl buf false u₀ = .ok (0, u) ↔
      ∃ p : UrlParts, buf = laidText p.pieces ∧ u = laidRecord p.pieces p.portValue u₀ := by
  constructor
  · intro h
    have hparts : ∃ p : UrlParts, buf = laidText p.pieces := by
      obtain ⟨hne, hsurvives⟩ := survives_of_accepts h
      cases shape_of_survives hne hsurvives with
      | rooted tail hroot => exact ⟨⟨none, tail, hroot, nofun⟩, rfl⟩
      | stub schema slashes hslashes => exact absurd h (parse_url_stub schema slashes hslashes u₀ u)
      | absolute schema sv hsv tail hfollows =>
        have htext : schema.val ++ (ascii "://" ++ (sv ++ laidText tail.pieces)) =
            laidText (serverPieces (schemaPieces schema) sv tail) := by
          rw [serverPieces_text]
          simp [schemaPieces]
        rw [htext] at h hlen ⊢
        obtain ⟨a, rfl⟩ := authority_of_accepts (UrlFront.absolute schema) sv hsv tail hfollows hlen
          u₀ u h
        rw [← urlPieces_text] at h hlen ⊢
        have hport : a.PortFits := by
          by_contra hport
          rw [parse_url_server (UrlFront.absolute schema) a tail u₀ hfollows hlen,
            if_neg (fun h => Bool.false_ne_true h.1),
            if_neg (fun h => hport (a.portFits_iff.mp h))] at h
          cases h
        refine ⟨⟨some (schema, a), tail, hfollows, ?_⟩, rfl⟩
        rintro b ⟨⟩
        exact hport
    obtain ⟨p, rfl⟩ := hparts
    rw [parse_url_of_parts p hlen u₀] at h
    exact ⟨p, rfl, (Prod.mk.inj (Except.ok.inj h)).2.symm⟩
  · rintro ⟨p, rfl, rfl⟩
    exact parse_url_of_parts p hlen u₀

theorem exists_ok_of_any {α : Type} {x : Res α} {P : α → Bool}
    (h : x.toOption.any P = true) : ∃ a, x = .ok a ∧ P a = true := by
  cases x with
  | error e => cases h
  | ok a => exact ⟨a, rfl, h⟩

/-- A URL with user information, an address with a zone, and more than one `#`. -/
theorem parse_url_exact_zone :
    ∃ p : UrlParts, ascii "http://joe@[fe80::1%eth0]:8080/a?b=?##c" = laidText p.pieces ∧
      p.portValue = 8080 := by
  obtain ⟨⟨r, u⟩, hparse, hcheck⟩ : ∃ v : ℤ × ParserUrl,
      cHttpParserParseUrl (ascii "http://joe@[fe80::1%eth0]:8080/a?b=?##c") false
        cHttpParserUrlInit = .ok v ∧ decide (v.1 = 0 ∧ v.2.port = 8080) = true :=
    exists_ok_of_any (by decide +kernel)
  obtain ⟨rfl, hport⟩ := of_decide_eq_true hcheck
  obtain ⟨p, htext, rfl⟩ := (parse_url_exact _ (by decide) _ _).mp hparse
  exact ⟨p, htext, hport⟩

/-- What a CONNECT request may name: a host and a port. An `@` in front of it, and a `?` with
any number of `#` behind it, leave no trace in the record. -/
structure ConnectTarget where
  atSign : Bool
  host : HostName
  port : Word isNum
  question : Option ℕ
  portFits : decimalValue port.val ≤ 0xffff

def ConnectTarget.authority (t : ConnectTarget) : Authority :=
  ⟨if t.atSign then some ⟨[], nofun⟩ else none, t.host, some t.port⟩

/-- The `#`s behind the `?`. -/
def ConnectTarget.hashes (t : ConnectTarget) : Option (ℕ × Bytes) :=
  match t.question with
  | some (k+1) => some (k, [])
  | _ => none

theorem ConnectTarget.hashes_text (t : ConnectTarget) (f : ℕ × Bytes) (hf : f ∈ t.hashes) :
    f.2 = [] ∧ t.question.isSome := by
  rw [ConnectTarget.hashes] at hf
  split at hf
  · next k hk =>
    obtain rfl := Option.some.inj hf
    exact ⟨rfl, by rw [hk]; rfl⟩
  · cases hf

theorem ConnectTarget.queryChars (t : ConnectTarget) (q : Bytes)
    (hq : q ∈ t.question.map fun _ => ([] : Bytes)) : ∀ c ∈ q, isQueryChar c = true := by
  obtain ⟨-, -, rfl⟩ := Option.map_eq_some_iff.mp hq
  nofun

theorem ConnectTarget.fragmentChars (t : ConnectTarget) : FragmentWellFormed t.hashes := by
  intro f hf
  rw [(t.hashes_text f hf).1]
  exact ⟨nofun, nofun⟩

theorem ConnectTarget.fragmentAfter (t : ConnectTarget) (h : t.hashes.isSome) :
    ([] : Bytes) ≠ [] ∨ (t.question.map fun _ => ([] : Bytes)).isSome := by
  obtain ⟨f, hf⟩ := Option.isSome_iff_exists.mp h
  rw [Option.isSome_map]
  exact .inr (t.hashes_text f hf).2

def ConnectTarget.tail (t : ConnectTarget) : UrlTail :=
  ⟨[], t.question.map fun _ => [], t.hashes, List.forall_mem_nil _, t.queryChars, t.fragmentChars, t.fragmentAfter⟩

def ConnectTarget.pieces (t : ConnectTarget) : List UrlPiece := urlPieces [] t.authority t.tail

section connect

theorem ConnectTarget.fieldSet_eq (t : ConnectTarget) (u₀ : ParserUrl) :
    (laidRecord t.pieces 0 u₀).fieldSet = {.host, .port} := by
  ext f
  rw [mem_laidRecord, Finset.mem_insert, Finset.mem_singleton]
  constructor
  · rintro ⟨w, hmem, hw⟩
    by_contra hf
    rw [not_or] at hf
    refine hw ?_
    rw [ConnectTarget.pieces, urlPieces, List.nil_append, List.mem_append, Authority.pieces,
      List.mem_append, List.mem_append, UrlTail.pieces, List.mem_append, List.mem_cons] at hmem
    rcases hmem with ((huser | hhost) | hport) | (hpath | hquery) | hhash
    · obtain ⟨s, hs, rfl⟩ := mem_userinfoPieces huser
      rw [ConnectTarget.authority] at hs
      split_ifs at hs
      rw [← Option.some.inj hs]
    · exact absurd (mem_hostPieces hhost) hf.1
    · exact absurd (mem_portPieces hport) hf.2
    · exact (Prod.mk.inj hpath).2
    · obtain ⟨-, -, hq⟩ := Option.map_eq_some_iff.mp (mem_queryPieces hquery)
      exact hq.symm
    · obtain ⟨k, hk⟩ := mem_fragmentPieces hhash
      exact (t.hashes_text (k, w) hk).1
  · rintro (rfl | rfl)
    · refine ⟨t.host.fieldText, ?_, t.host.fieldText_ne_nil⟩
      exact List.mem_append_left _ t.authority.host_mem
    · exact ⟨t.port.val, urlPieces_port t.authority t.tail [] rfl, t.port.property.1⟩

/-- The record without a field says that its piece is missing or empty. -/
theorem connect_parts (a : Authority) (tail : UrlTail) (u₀ : ParserUrl) (hport : a.PortFits)
    (h : (laidRecord (urlPieces [] a tail) 0 u₀).fieldSet = {.host, .port}) :
    ∃ t : ConnectTarget, t.authority = a ∧ t.tail = tail := by
  have hempty (f : UrlField) (hf : f ∉ ({.host, .port} : Finset UrlField)) (w : Bytes)
      (hmem : (some f, w) ∈ urlPieces [] a tail) : w = [] := by
    by_contra hw
    rw [← h, mem_laidRecord] at hf
    exact hf ⟨w, hmem, hw⟩
  obtain ⟨d, hd⟩ : ∃ d, a.port = some d := by
    by_contra hnone
    have hmem : UrlField.port ∈ (laidRecord (urlPieces [] a tail) 0 u₀).fieldSet := by
      rw [h]
      decide
    rw [mem_laidRecord] at hmem
    obtain ⟨w, hmem, -⟩ := hmem
    refine urlPieces_no_port UrlFront.connect a tail ?_ (mem_labels hmem)
    cases hp : a.port with
    | none => rfl
    | some d => exact absurd ⟨d, hp⟩ hnone
  obtain ⟨userinfo, host, port⟩ := a
  obtain rfl : port = some d := hd
  obtain ⟨path, q, f, hpath, hq, hf, hafter⟩ := tail
  have huser : ∃ b : Bool, userinfo = if b then some ⟨[], nofun⟩ else none := by
    cases userinfo with
    | none => exact ⟨false, rfl⟩
    | some w =>
      have hw := hempty .userinfo (by decide) w.val (by
        simp [urlPieces, Authority.pieces, Authority.userinfoPieces])
      exact ⟨true, congrArg some (Subtype.ext hw)⟩
  obtain ⟨b, rfl⟩ := huser
  obtain rfl : path = [] := hempty .path (by decide) path (by simp [urlPieces, UrlTail.pieces])
  have hfits := hport d rfl
  cases q with
  | none =>
    cases f with
    | none => exact ⟨⟨b, host, d, none, hfits⟩, rfl, rfl⟩
    | some g =>
      rcases hafter rfl with h | h
      · exact absurd rfl h
      · cases h
  | some w =>
    obtain rfl := hempty .query (by decide) w (by simp [urlPieces, UrlTail.pieces, queryPieces])
    cases f with
    | none => exact ⟨⟨b, host, d, some 0, hfits⟩, rfl, rfl⟩
    | some g =>
      obtain ⟨k, g⟩ := g
      obtain rfl := hempty .fragment (by decide) g (by
        simp [urlPieces, UrlTail.pieces, fragmentPieces])
      exact ⟨⟨b, host, d, some (k+1), hfits⟩, rfl, rfl⟩

end connect

/-- For CONNECT the parser accepts a buffer of less than 2^16 bytes if and only if it names a
host and a port in this way, and reports these two fields and nothing else. -/
theorem parse_connect_exact (buf : Bytes) (hlen : buf.length < 65536) (u₀ u : ParserUrl) :
    cHttpParserParseUrl buf true u₀ = .ok (0, u) ↔
      ∃ t : ConnectTarget, buf = laidText t.pieces ∧
        u = laidRecord t.pieces (UInt16.ofNat (decimalValue t.port.val)) u₀ := by
  constructor
  · intro h
    obtain ⟨hne, hsurvives⟩ := survives_of_accepts h
    obtain ⟨sv, tail, rfl, hfollows, hchars, hlive⟩ := survives_server rfl hsurvives
    have htext : sv ++ laidText tail.pieces = laidText (serverPieces [] sv tail) := by
      rw [serverPieces_text]
      rfl
    rw [htext] at h hlen ⊢
    obtain ⟨a, rfl⟩ := authority_of_accepts UrlFront.connect sv ⟨hchars, hlive⟩ tail hfollows hlen
      u₀ u h
    rw [← urlPieces_text] at h hlen ⊢
    rw [parse_url_server UrlFront.connect a tail u₀ hfollows hlen] at h
    split_ifs at h with hset hfits
    · cases h
    · have hfields := not_not.mp (not_and.mp hset rfl)
      obtain ⟨t, rfl, rfl⟩ := connect_parts a tail u₀ (a.portFits_iff.mp hfits) hfields
      exact ⟨t, rfl, (Prod.mk.inj (Except.ok.inj h)).2.symm⟩
    · cases h
  · rintro ⟨t, rfl, rfl⟩
    have hfits : t.authority.PortFits := by
      rintro d ⟨⟩
      exact t.portFits
    rw [ConnectTarget.pieces] at hlen ⊢
    rw [parse_url_server UrlFront.connect t.authority t.tail u₀ (List.mem_cons_self ..) hlen,
      if_neg (fun h => h.2 (t.fieldSet_eq u₀)), if_pos (t.authority.portFits_iff.mpr hfits)]
    rfl

/-- An address in brackets, with what leaves no trace around it. -/
theorem parse_connect_exact_brackets :
    ∃ t : ConnectTarget, ascii "@[::1]:443?##" = laidText t.pieces ∧
      decimalValue t.port.val % 65536 = 443 := by
  obtain ⟨⟨r, u⟩, hparse, hcheck⟩ : ∃ v : ℤ × ParserUrl,
      cHttpParserParseUrl (ascii "@[::1]:443?##") true cHttpParserUrlInit = .ok v ∧
        decide (v.1 = 0 ∧ v.2.port.toNat = 443) = true :=
    exists_ok_of_any (by decide +kernel)
  obtain ⟨rfl, hport⟩ := of_decide_eq_true hcheck
  obtain ⟨t, htext, rfl⟩ := (parse_connect_exact _ (by decide) _ _).mp hparse
  exact ⟨t, htext, hport⟩

end CHttp
