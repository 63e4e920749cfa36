import CHttp.UrlLayout

/-! The two automata of the URL parser over the pieces of a well-formed URL. -/
namespace CHttp

section drives

/-- Behind what opens a fragment. -/
theorem drives_fragment {s : UrlState} (hs : parseUrlChar s 35 = .fragmentStart)
    (f : Option (ℕ × Bytes)) (hf : FragmentWellFormed f) :
    Drives parseUrlChar urlLabel s (fragmentPieces f) := by
  cases f with
  | none => trivial
  | some g =>
    obtain ⟨extra, w⟩ := g
    obtain ⟨hchars, hhead⟩ := hf (extra, w) rfl
    have hopen : ∀ c ∈ List.replicate (extra+1) (35 : UInt8), parseUrlChar s c = .fragmentStart := by
      intro c hc
      rw [List.eq_of_mem_replicate hc]
      exact hs
    have hstay : ∀ c ∈ List.replicate (extra+1) (35 : UInt8),
        parseUrlChar .fragmentStart c = .fragmentStart := by
      intro c hc
      rw [List.eq_of_mem_replicate hc, parseUrlChar_fragmentStart, if_pos rfl]
    refine ⟨visits_of_stays hopen hstay rfl, ?_, trivial⟩
    rw [foldl_of_stays (by simp) hopen hstay]
    cases w with
    | nil => trivial
    | cons c w =>
      have hc : parseUrlChar .fragmentStart c = .fragment := by
        rw [parseUrlChar_fragmentStart, if_neg (fun h => hhead (congrArg some h)),
          if_pos (hchars c (List.mem_cons_self ..))]
      have hmore : ∀ d ∈ w, parseUrlChar .fragment d = .fragment := by
        intro d hd
        rw [parseUrlChar_fragment, if_pos (hchars d (List.mem_cons_of_mem c hd))]
      rw [Visits, hc]
      exact ⟨rfl, visits_of_stays hmore hmore rfl⟩

theorem parseUrlChar_queryString_hash : parseUrlChar .queryString 35 = .fragmentStart := by
  rw [parseUrlChar_queryString]
  rfl

/-- The query, which may be missing, and the fragment behind it. -/
theorem drives_query {s : UrlState} (q : Option Bytes) (f : Option (ℕ × Bytes))
    (hopen : q.isSome → parseUrlChar s 63 = .queryStringStart)
    (hhash : q = none → f.isSome → parseUrlChar s 35 = .fragmentStart)
    (hq : ∀ w ∈ q, ∀ c ∈ w, isQueryChar c = true) (hf : FragmentWellFormed f) :
    Drives parseUrlChar urlLabel s (queryPieces q ++ fragmentPieces f) := by
  cases q with
  | none =>
    cases f with
    | none => trivial
    | some g => exact drives_fragment (hhash rfl rfl) _ hf
  | some w =>
    have hfirst : ∀ c ∈ w, parseUrlChar .queryStringStart c = .queryString := by
      intro c hc
      rw [parseUrlChar_queryStringStart, parseUrlChar_queryString, if_pos (hq w rfl c hc)]
    have hmore : ∀ c ∈ w, parseUrlChar .queryString c = .queryString := by
      intro c hc
      rw [parseUrlChar_queryString, if_pos (hq w rfl c hc)]
    have hquestion := hopen rfl
    refine ⟨⟨by rw [hquestion]; rfl, trivial⟩, ?_, ?_⟩
    · rw [List.foldl_cons, List.foldl_nil, hquestion]
      exact visits_of_stays hfirst hmore rfl
    · rw [List.foldl_cons, List.foldl_nil, hquestion]
      refine drives_fragment ?_ f hf
      by_cases hw : w = []
      · rw [hw, List.foldl_nil, parseUrlChar_queryStringStart]
        exact parseUrlChar_queryString_hash
      · rw [foldl_of_stays hw hfirst hmore]
        exact parseUrlChar_queryString_hash

theorem drives_tail {s : UrlState} (tail : UrlTail)
    (hstart : ∀ c, tail.path.head? = some c → parseUrlChar s c = .path)
    (hempty : tail.path = [] → parseUrlChar s 63 = .queryStringStart) :
    Drives parseUrlChar urlLabel s tail.pieces := by
  obtain ⟨path, q, f, hpath, hq, hf, hafter⟩ := tail
  cases path with
  | nil =>
    refine ⟨trivial, drives_query q f (fun _ => hempty rfl) ?_ hq hf⟩
    intro hnone hsome
    rcases hafter hsome with h | h
    · exact absurd rfl h
    · rw [hnone] at h
      cases h
  | cons c w =>
    have hc := hstart c rfl
    have hmore : ∀ d ∈ w, parseUrlChar .path d = .path := by
      intro d hd
      rw [parseUrlChar_path, if_pos (hpath d (List.mem_cons_of_mem c hd))]
    have hend : (c :: w).foldl parseUrlChar s = .path := by
      rw [List.foldl_cons, hc]
      exact foldl_stays hmore
    refine ⟨?_, ?_⟩
    · rw [Visits, hc]
      exact ⟨rfl, visits_of_stays hmore hmore rfl⟩
    · rw [hend]
      exact drives_query q f (fun _ => by rw [parseUrlChar_path]; rfl)
        (fun _ _ => by rw [parseUrlChar_path]; rfl) hq hf

theorem parseUrlChar_server_ends {s : UrlState} (hs : s.inServer = true) :
    parseUrlChar s 47 = .path ∧ parseUrlChar s 63 = .queryStringStart := by
  cases s with
  | serverStart | server | serverWithAt => exact ⟨rfl, rfl⟩
  | _ => cases hs

theorem drives_tail_server {s : UrlState} (hs : s.inServer = true) (tail : UrlTail)
    (h : tail.followsServer) : Drives parseUrlChar urlLabel s tail.pieces := by
  obtain ⟨hslash, hquestion⟩ := parseUrlChar_server_ends hs
  refine drives_tail tail ?_ fun _ => hquestion
  intro c hc
  rw [UrlTail.followsServer, hc, List.mem_cons, List.mem_singleton] at h
  rcases h with h | h
  · cases h
  · rw [Option.some.inj h]
    exact hslash

/-- The server part is one field for the first loop. -/
theorem visits_server {s : UrlState} (hs : s.inServer = true) (sv : Bytes)
    (hchars : ∀ c ∈ sv, isServerChar c = true ∨ c = 64) (hlive : Survives s sv) :
    Visits parseUrlChar urlLabel (some .host) s sv ∧ sawAt s sv = decide (64 ∈ sv) ∧
      (sv.foldl parseUrlChar s).inServer = true := by
  induction sv generalizing s with
  | nil => exact ⟨trivial, rfl, hs⟩
  | cons c sv ih =>
    rw [Survives, List.foldl_cons] at hlive
    have hmore := fun d hd => hchars d (List.mem_cons_of_mem c hd)
    have hnot : c ≠ 47 ∧ c ≠ 63 := by
      constructor <;> rintro rfl <;> exact absurd (hchars _ (List.mem_cons_self ..)) (by decide)
    rcases parseUrlChar_inServer hs c (step_ne_dead parseUrlChar_dead hlive) with
      ⟨h, -⟩ | ⟨h, -⟩ | ⟨rfl, hstep⟩ | ⟨-, hne, hstep⟩
    · exact absurd h hnot.1
    · exact absurd h hnot.2
    · obtain ⟨hvisits, -, hend⟩ := ih (by rw [hstep]; rfl) hmore hlive
      refine ⟨⟨by rw [hstep]; rfl, hvisits⟩, ?_, hend⟩
      rw [sawAt, decide_eq_true hstep, Bool.true_or, decide_eq_true (List.mem_cons_self ..)]
    · obtain ⟨hvisits, hsaw, hend⟩ := ih (by rw [hstep]; rfl) hmore hlive
      refine ⟨⟨by rw [hstep]; rfl, hvisits⟩, ?_, hend⟩
      rw [sawAt, hstep, decide_eq_false (by decide), Bool.false_or, ← hstep, hsaw]
      simp [Ne.symm hne]

theorem sawAt_of_visits {l : Option UrlField} (hl : l ≠ some .host) {s : UrlState} {w : Bytes}
    (h : Visits parseUrlChar urlLabel l s w) : sawAt s w = false := by
  induction w generalizing s with
  | nil => rfl
  | cons c w ih =>
    rw [sawAt, ih h.2, Bool.or_false, decide_eq_false_iff_not]
    intro hstep
    have hlabel := h.1
    rw [hstep] at hlabel
    exact hl (Option.some.inj hlabel).symm

theorem sawAt_of_drives {s : UrlState} {ps : List UrlPiece} (hps : UrlField.host ∉ labels ps)
    (h : Drives parseUrlChar urlLabel s ps) : sawAt s (laidText ps) = false := by
  induction ps generalizing s with
  | nil => rfl
  | cons piece ps ih =>
    obtain ⟨l, w⟩ := piece
    have hsplit : l ≠ some .host ∧ UrlField.host ∉ labels ps := by
      cases l with
      | none => exact ⟨nofun, hps⟩
      | some f =>
        rw [labels_some, List.mem_cons, not_or] at hps
        exact ⟨fun hf => hps.1 (Option.some.inj hf).symm, hps.2⟩
    rw [laidText_cons, sawAt_append, sawAt_of_visits hsplit.1 h.1, ih hsplit.2 h.2]
    rfl

end drives

section labels

theorem labels_query (q : Option Bytes) :
    labels (queryPieces q) = if q.isSome then [.query] else [] := by
  cases q <;> rfl

theorem labels_fragment (f : Option (ℕ × Bytes)) :
    labels (fragmentPieces f) = if f.isSome then [.fragment] else [] := by
  cases f <;> rfl

theorem labels_tail (t : UrlTail) : labels t.pieces =
    .path :: (if t.query.isSome then [.query] else []) ++
      if t.fragment.isSome then [.fragment] else [] := by
  rw [UrlTail.pieces, labels_append, labels_some, labels_query, labels_fragment]

/-- The fields behind the host, of which each stands once. -/
theorem labels_tail_sublist (t : UrlTail) :
    (labels t.pieces).Sublist [.path, .query, .fragment] := by
  rw [labels_tail]
  cases t.query.isSome <;> cases t.fragment.isSome <;> decide

theorem mem_queryPieces {f : UrlField} {w : Bytes} {q : Option Bytes}
    (h : (some f, w) ∈ queryPieces q) : q = some w := by
  cases q with
  | none => cases h
  | some v =>
    simp only [queryPieces, List.mem_cons, Prod.mk.injEq, reduceCtorEq, false_and,
      List.not_mem_nil, or_false, false_or] at h
    rw [h.2]

theorem mem_fragmentPieces {f : UrlField} {w : Bytes} {g : Option (ℕ × Bytes)}
    (h : (some f, w) ∈ fragmentPieces g) : ∃ k, g = some (k, w) := by
  cases g with
  | none => cases h
  | some v =>
    simp only [fragmentPieces, List.mem_cons, Prod.mk.injEq, reduceCtorEq, false_and,
      List.not_mem_nil, or_false, false_or] at h
    exact ⟨v.1, by rw [h.2]⟩

theorem mem_userinfoPieces {f : UrlField} {w : Bytes} {a : Authority}
    (h : (some f, w) ∈ a.userinfoPieces) : ∃ s, a.userinfo = some s ∧ w = s.val := by
  rw [Authority.userinfoPieces] at h
  cases hu : a.userinfo with
  | none =>
    rw [hu] at h
    cases h
  | some s =>
    simp only [hu, List.mem_cons, Prod.mk.injEq, reduceCtorEq, false_and, List.not_mem_nil,
      or_false] at h
    exact ⟨s, rfl, h.2⟩

theorem mem_hostPieces {f : UrlField} {w : Bytes} {host : HostName}
    (h : (some f, w) ∈ host.pieces) : f = .host := by
  cases host <;> simp [HostName.pieces] at h <;> exact h.1

theorem mem_portPieces {f : UrlField} {w : Bytes} {a : Authority}
    (h : (some f, w) ∈ a.portPieces) : f = .port := by
  rw [Authority.portPieces] at h
  cases hp : a.port with
  | none =>
    rw [hp] at h
    cases h
  | some d =>
    simp only [hp, List.mem_cons, Prod.mk.injEq, reduceCtorEq, false_and, List.not_mem_nil,
      or_false, false_or, Option.some.injEq] at h
    exact h.1

theorem labels_authority (a : Authority) :
    (labels a.pieces).Sublist [.userinfo, .host, .port] ∧ UrlField.host ∈ labels a.pieces := by
  obtain ⟨userinfo, host, port⟩ := a
  rw [Authority.pieces, Authority.userinfoPieces, Authority.portPieces]
  cases userinfo <;> cases host <;> cases port <;>
    simp [HostName.pieces, labels]

end labels

section authority

/-! The bytes of an authority are bytes of the server part. -/

theorem isServerChar_of_userinfo {c : UInt8} (h : isUserinfoChar c = true) :
    isServerChar c = true := by
  rw [isServerChar, h, Bool.true_or]

theorem isUserinfoChar_of_num {c : UInt8} (h : isNum c = true) : isUserinfoChar c = true := by
  rw [isUserinfoChar, isAlphanum, h, Bool.or_true, Bool.true_or, Bool.true_or]

theorem isUserinfoChar_of_alphanum {c : UInt8} (h : isAlphanum c = true) :
    isUserinfoChar c = true := by
  rw [isUserinfoChar, h, Bool.true_or, Bool.true_or]

theorem isUserinfoChar_of_hex {c : UInt8} (h : isHex c = true) : isUserinfoChar c = true := by
  rw [isHex, Bool.or_eq_true] at h
  rcases h with h | h
  · exact isUserinfoChar_of_num h
  · refine isUserinfoChar_of_alphanum ?_
    rw [decide_eq_true_eq] at h
    have halpha : isAlpha c = true := by
      rw [isAlpha, decide_eq_true_eq]
      exact ⟨h.1, UInt8.le_trans h.2 (by decide)⟩
    rw [isAlphanum, halpha, Bool.true_or]

/-- A class of letters and digits with a few more bytes, all of them for user information. -/
theorem isUserinfoChar_of_mem {c : UInt8} {extra : Bytes} {base : Bool}
    (h : (base || decide (c ∈ extra)) = true) (hbase : base = true → isUserinfoChar c = true)
    (hextra : ∀ d ∈ extra, isUserinfoChar d = true) : isUserinfoChar c = true := by
  rw [Bool.or_eq_true, decide_eq_true_eq] at h
  rcases h with h | h
  · exact hbase h
  · exact hextra c h

theorem isUserinfoChar_of_host {c : UInt8} (h : isHostChar c = true) : isUserinfoChar c = true :=
  isUserinfoChar_of_mem h isUserinfoChar_of_alphanum (by decide +kernel)

theorem isUserinfoChar_of_v6 {c : UInt8} (h : isV6Char c = true) : isUserinfoChar c = true :=
  isUserinfoChar_of_mem h isUserinfoChar_of_hex (by decide +kernel)

theorem isUserinfoChar_of_zone {c : UInt8} (h : isZoneChar c = true) : isUserinfoChar c = true :=
  isUserinfoChar_of_mem h isUserinfoChar_of_alphanum (by decide +kernel)

theorem HostName.fieldText_chars (host : HostName) :
    ∀ c ∈ host.fieldText, isUserinfoChar c = true := by
  intro c hc
  cases host with
  | name s => exact isUserinfoChar_of_host (s.property.2 c hc)
  | v6 addr zone =>
    cases zone with
    | none => exact isUserinfoChar_of_v6 (addr.property.2 c hc)
    | some z =>
      rcases List.mem_append.mp hc with hc | hc
      · exact isUserinfoChar_of_v6 (addr.property.2 c hc)
      · rcases List.mem_cons.mp hc with rfl | hc
        · decide
        · exact isUserinfoChar_of_zone (z.property.2 c hc)

theorem HostName.fieldText_ne_nil (host : HostName) : host.fieldText ≠ [] := by
  cases host with
  | name s => exact s.property.1
  | v6 addr zone =>
    cases zone with
    | none => exact addr.property.1
    | some z => exact List.append_ne_nil_of_left_ne_nil addr.property.1 _

theorem Authority.host_mem (a : Authority) : (some UrlField.host, a.host.fieldText) ∈ a.pieces := by
  rw [Authority.pieces, List.mem_append, List.mem_append]
  refine .inl (.inr ?_)
  cases a.host with
  | name s => exact List.mem_cons_self ..
  | v6 addr zone => exact List.mem_cons_of_mem _ (List.mem_cons_self ..)

theorem HostName.text_chars (host : HostName) :
    ∀ c ∈ laidText host.pieces, isServerChar c = true := by
  have hfield := fun c hc => isServerChar_of_userinfo (host.fieldText_chars c hc)
  intro c hc
  cases host with
  | name s =>
    rw [HostName.pieces, laidText_cons, laidText_nil, List.append_nil] at hc
    exact hfield c hc
  | v6 addr zone =>
    rw [HostName.pieces, laidText_cons, laidText_cons, laidText_cons, laidText_nil,
      List.singleton_append, List.mem_cons, List.mem_append, List.append_nil,
      List.mem_singleton] at hc
    rcases hc with rfl | hc | rfl
    · decide
    · exact hfield c hc
    · decide

theorem portText_chars (d : Option (Word isNum)) : ∀ c ∈ portText d, isServerChar c = true := by
  intro c hc
  cases d with
  | none => cases hc
  | some d =>
    rcases List.mem_cons.mp hc with rfl | hc
    · decide
    · exact isServerChar_of_userinfo (isUserinfoChar_of_num (d.property.2 c hc))

theorem Authority.rest_chars (a : Authority) :
    ∀ c ∈ laidText a.host.pieces ++ portText a.port, isServerChar c = true := by
  intro c hc
  rcases List.mem_append.mp hc with hc | hc
  · exact a.host.text_chars c hc
  · exact portText_chars a.port c hc

/-- On server bytes the scanner stays in the server part, and it is not behind an `@` then. -/
theorem foldl_server {s : UrlState} (hs : s.inServer = true) {w : Bytes}
    (hw : ∀ c ∈ w, isServerChar c = true) :
    w.foldl parseUrlChar s = if w.isEmpty then s else .server := by
  have hstep {t : UrlState} (ht : t.inServer = true) (c : UInt8) (hc : isServerChar c = true) :
      parseUrlChar t c = .server := by
    have hne : c ≠ 47 ∧ c ≠ 63 ∧ c ≠ 64 := by
      refine ⟨?_, ?_, ?_⟩ <;> rintro rfl <;> exact absurd hc (by decide)
    have hshared : parseServerChar c = .server := by
      rw [parseServerChar_eq, if_neg hne.1, if_neg hne.2.1, if_neg hne.2.2, if_pos hc]
    rw [parseUrlChar_eq]
    cases t with
    | serverStart | server => exact hshared
    | serverWithAt => rw [urlSwitch, if_neg hne.2.2, hshared]
    | _ => cases ht
  cases w with
  | nil => rfl
  | cons c w =>
    rw [List.foldl_cons, hstep hs c (hw c (List.mem_cons_self ..))]
    exact foldl_stays fun d hd => hstep rfl d (hw d (List.mem_cons_of_mem c hd))

theorem Authority.serverText (a : Authority) : ServerText (laidText a.pieces) := by
  have hrest := a.rest_chars
  rw [Authority.text_eq]
  generalize laidText a.host.pieces ++ portText a.port = rest at hrest ⊢
  cases hu : a.userinfo with
  | none =>
    rw [show laidText a.userinfoPieces = [] by rw [Authority.userinfoPieces, hu]; rfl]
    refine ⟨fun c hc => .inl (hrest c hc), ?_⟩
    rw [Survives, List.nil_append, foldl_server rfl hrest]
    split_ifs <;> decide
  | some w =>
    have huser : ∀ c ∈ w.val, isServerChar c = true :=
      fun c hc => isServerChar_of_userinfo (w.property c hc)
    rw [show laidText a.userinfoPieces = w.val ++ [64] by
      rw [Authority.userinfoPieces, hu]; simp]
    constructor
    · intro c hc
      rw [List.mem_append, List.mem_append, List.mem_singleton] at hc
      rcases hc with (hc | rfl) | hc
      · exact .inl (huser c hc)
      · exact .inr rfl
      · exact .inl (hrest c hc)
    · have hat : parseUrlChar (if w.val.isEmpty then .serverStart else .server) 64 =
          .serverWithAt := by
        split_ifs <;> rfl
      rw [Survives, List.foldl_append, List.foldl_append, foldl_server rfl huser, List.foldl_cons,
        List.foldl_nil, hat, foldl_server rfl hrest]
      split_ifs <;> decide

theorem Authority.at_mem (a : Authority) :
    decide (64 ∈ laidText a.pieces) = a.userinfo.isSome := by
  have hno {w : Bytes} (hw : ∀ c ∈ w, isServerChar c = true) : 64 ∉ w :=
    fun h => absurd (hw 64 h) (by decide)
  rw [Authority.text_eq]
  cases hu : a.userinfo with
  | none =>
    rw [show laidText a.userinfoPieces = [] by rw [Authority.userinfoPieces, hu]; rfl]
    exact decide_eq_false (hno a.rest_chars)
  | some w =>
    rw [show laidText a.userinfoPieces = w.val ++ [64] by
      rw [Authority.userinfoPieces, hu]; simp]
    refine decide_eq_true ?_
    rw [List.mem_append, List.mem_append, List.mem_singleton]
    exact .inl (.inr rfl)

theorem Authority.text_ne_nil (a : Authority) : laidText a.pieces ≠ [] := by
  have hhost : laidText a.host.pieces ≠ [] := by
    cases hh : a.host with
    | name s => simpa [HostName.pieces, HostName.fieldText] using s.property.1
    | v6 addr zone => simp [HostName.pieces]
  rw [Authority.text_eq]
  simp [hhost]

/-! The scanner of the host over the pieces of an authority. -/

theorem visits_word {P : UInt8 → Bool} {l : Option UrlField} {s t : HttpHostState} (w : Word P)
    (hfirst : ∀ c, P c = true → cHttpParseHostChar s c = t)
    (hmore : ∀ c, P c = true → cHttpParseHostChar t c = t) (hl : hostLabel t = some l) :
    Visits cHttpParseHostChar hostLabel l s w.val ∧ w.val.foldl cHttpParseHostChar s = t := by
  have hs := fun c hc => hfirst c (w.property.2 c hc)
  have ht := fun c hc => hmore c (w.property.2 c hc)
  exact ⟨visits_of_stays hs ht hl, foldl_of_stays w.property.1 hs ht⟩

theorem drives_port {s : HttpHostState} (hs : cHttpParseHostChar s 58 = .hostPortStart)
    (hfinal : s.final = true) (a : Authority) :
    Drives cHttpParseHostChar hostLabel s a.portPieces ∧ HostEnds s (laidText a.portPieces) := by
  rw [Authority.portPieces]
  cases a.port with
  | none => exact ⟨trivial, hfinal⟩
  | some d =>
    obtain ⟨hvisits, hend⟩ := visits_word (l := some .port) (s := .hostPortStart) (t := .hostPort) d
      (fun c hc => if_pos hc) (fun c hc => if_pos hc) rfl
    constructor
    · refine ⟨⟨by rw [hs]; rfl, trivial⟩, ?_, trivial⟩
      rw [List.foldl_cons, List.foldl_nil, hs]
      exact hvisits
    · rw [HostEnds, laidText_cons, laidText_cons, laidText_nil, List.append_nil,
        List.singleton_append, List.foldl_cons, hs, hend]
      rfl

/-- Behind the host the scanner is where it may end or meet the port. -/
theorem drives_host (host : HostName) :
    Drives cHttpParseHostChar hostLabel .hostStart host.pieces ∧
      ∃ s, (laidText host.pieces).foldl cHttpParseHostChar .hostStart = s ∧
        s.final = true ∧ cHttpParseHostChar s 58 = .hostPortStart := by
  cases host with
  | name w =>
    have hbracket (c : UInt8) (hc : isHostChar c = true) : c ≠ 91 := by
      rintro rfl
      exact absurd hc (by decide)
    obtain ⟨hvisits, hend⟩ := visits_word (l := some .host) (s := .hostStart) (t := .host) w
      (fun c hc => by rw [cHttpParseHostChar, if_neg (hbracket c hc), if_pos hc])
      (fun c hc => if_pos hc) rfl
    refine ⟨⟨hvisits, trivial⟩, .host, ?_, rfl, rfl⟩
    rw [HostName.pieces, laidText_cons, laidText_nil, List.append_nil]
    exact hend
  | v6 addr zone =>
    have hclose (c : UInt8) (hc : isV6Char c = true) : c ≠ 93 := by
      rintro rfl
      exact absurd hc (by decide)
    obtain ⟨hvisits, hend⟩ := visits_word (l := some .host) (s := .hostV6Start) (t := .hostV6) addr
      (fun c hc => if_pos hc)
      (fun c hc => by rw [cHttpParseHostChar, if_neg (hclose c hc), if_pos hc]) rfl
    have hfield : ∃ t, Visits cHttpParseHostChar hostLabel (some .host) .hostV6Start
          (HostName.v6 addr zone).fieldText ∧
        (HostName.v6 addr zone).fieldText.foldl cHttpParseHostChar .hostV6Start = t ∧
        cHttpParseHostChar t 93 = .hostV6End := by
      cases zone with
      | none => exact ⟨.hostV6, hvisits, hend, rfl⟩
      | some z =>
        have hzclose (c : UInt8) (hc : isZoneChar c = true) : c ≠ 93 := by
          rintro rfl
          exact absurd hc (by decide)
        obtain ⟨hzvisits, hzend⟩ := visits_word (l := some .host) (s := .hostV6ZoneStart)
          (t := .hostV6Zone) z (fun c hc => if_pos hc)
          (fun c hc => by rw [cHttpParseHostChar, if_neg (hzclose c hc), if_pos hc]) rfl
        have hpercent : cHttpParseHostChar .hostV6 37 = .hostV6ZoneStart := rfl
        refine ⟨.hostV6Zone, visits_append hvisits ?_, ?_, rfl⟩
        · rw [hend, Visits, hpercent]
          exact ⟨rfl, hzvisits⟩
        · rw [HostName.fieldText, List.foldl_append, hend, List.foldl_cons, hpercent]
          exact hzend
    obtain ⟨t, hfvisits, hfend, hft⟩ := hfield
    have hopen : ([91] : Bytes).foldl cHttpParseHostChar .hostStart = .hostV6Start := rfl
    refine ⟨⟨⟨rfl, trivial⟩, hfvisits, ⟨?_, trivial⟩, trivial⟩, .hostV6End, ?_, rfl, rfl⟩
    · rw [hopen, hfend, hft]
      rfl
    · rw [HostName.pieces, laidText_cons, laidText_cons, laidText_cons, laidText_nil,
        List.append_nil, List.foldl_append, List.foldl_append, hopen, hfend, List.foldl_cons,
        List.foldl_nil, hft]

/-- The state in which the loop over the host starts. -/
def hostInitial (foundAt : Bool) : HttpHostState := if foundAt then .userinfoStart else .hostStart

theorem drives_userinfo (a : Authority) :
    Drives cHttpParseHostChar hostLabel (hostInitial a.userinfo.isSome) a.userinfoPieces ∧
      (laidText a.userinfoPieces).foldl cHttpParseHostChar (hostInitial a.userinfo.isSome) =
        .hostStart := by
  rw [Authority.userinfoPieces]
  cases a.userinfo with
  | none => exact ⟨trivial, rfl⟩
  | some w =>
    have hat (c : UInt8) (hc : isUserinfoChar c = true) : c ≠ 64 := by
      rintro rfl
      exact absurd hc (by decide)
    have hfirst : ∀ c ∈ w.val, cHttpParseHostChar .userinfoStart c = .userinfo := by
      intro c hc
      rw [cHttpParseHostChar, if_neg (hat c (w.property c hc)), if_pos (w.property c hc)]
    have hmore : ∀ c ∈ w.val, cHttpParseHostChar .userinfo c = .userinfo := by
      intro c hc
      rw [cHttpParseHostChar, if_neg (hat c (w.property c hc)), if_pos (w.property c hc)]
    have hend : cHttpParseHostChar (w.val.foldl cHttpParseHostChar .userinfoStart) 64 =
        .hostStart := by
      by_cases hw : w.val = []
      · rw [hw]
        rfl
      · rw [foldl_of_stays hw hfirst hmore]
        rfl
    refine ⟨⟨visits_of_stays hfirst hmore rfl, ⟨?_, trivial⟩, trivial⟩, ?_⟩
    · change hostLabel (cHttpParseHostChar (w.val.foldl cHttpParseHostChar .userinfoStart) 64) = _
      rw [hend]
      rfl
    · rw [laidText_cons, laidText_cons, laidText_nil, List.append_nil, List.foldl_append,
        List.foldl_cons, List.foldl_nil]
      exact hend

theorem drives_authority (a : Authority) :
    Drives cHttpParseHostChar hostLabel (hostInitial a.userinfo.isSome) a.pieces ∧
      HostEnds (hostInitial a.userinfo.isSome) (laidText a.pieces) := by
  obtain ⟨huser, huend⟩ := drives_userinfo a
  obtain ⟨hhost, s, hhend, hfinal, hcolon⟩ := drives_host a.host
  obtain ⟨hport, hpend⟩ := drives_port hcolon hfinal a
  have hfront : (laidText (a.userinfoPieces ++ a.host.pieces)).foldl cHttpParseHostChar
      (hostInitial a.userinfo.isSome) = s := by
    rw [laidText_append, List.foldl_append, huend, hhend]
  constructor
  · refine drives_append (drives_append huser ?_) ?_
    · rw [huend]
      exact hhost
    · rw [hfront]
      exact hport
  · rw [HostEnds, Authority.pieces, laidText_append, List.foldl_append, hfront]
    exact hpend

end authority

end CHttp
