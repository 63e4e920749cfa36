import CHttp.Scanner
import CHttp.UrlBounds

/-! The URLs that the parser is meant for, as components that make a text, and the texts that
each state of its two automata survives. -/
namespace CHttp

/-- A non-empty run of bytes of one class. -/
abbrev Word (P : UInt8 → Bool) : Type := { s : Bytes // s ≠ [] ∧ ∀ c ∈ s, P c = true }

def Word.cons {P : UInt8 → Bool} (c : UInt8) (w : Bytes) (hc : P c = true)
    (hw : ∀ d ∈ w, P d = true) : Word P :=
  ⟨c :: w, List.cons_ne_nil c w, List.forall_mem_cons.mpr ⟨hc, hw⟩⟩

def isQueryChar (c : UInt8) : Bool := isUrlChar c || c = 63

def isFragmentChar (c : UInt8) : Bool := isUrlChar c || c = 63 || c = 35

/-- The number that decimal digits write. -/
def decimalValue (d : Bytes) : ℕ := d.foldl (fun v c => v*10+(c.toNat-48)) 0

/-- A host: a name, or an address in brackets, which may have a zone. -/
inductive HostName where
  | name (s : Word isHostChar)
  | v6 (addr : Word isV6Char) (zone : Option (Word isZoneChar))

/-- What stands between `://` and the path. The user information may be empty. -/
structure Authority where
  userinfo : Option { s : Bytes // ∀ c ∈ s, isUserinfoChar c = true }
  host : HostName
  port : Option (Word isNum)

/-- What follows the host: a path, a query behind `?`, and a fragment behind `#`, of which
there may be several. A fragment does not follow the host directly. -/
structure UrlTail where
  path : Bytes
  query : Option Bytes
  fragment : Option (ℕ × Bytes)
  pathChars : ∀ c ∈ path, isUrlChar c = true
  queryChars : ∀ q ∈ query, ∀ c ∈ q, isQueryChar c = true
  fragmentChars : ∀ f ∈ fragment, (∀ c ∈ f.2, isFragmentChar c = true) ∧ f.2.head? ≠ some 35
  fragmentAfter : fragment.isSome → path ≠ [] ∨ query.isSome

/-- The port fits a `uint16_t`. -/
def Authority.PortFits (a : Authority) : Prop := ∀ d ∈ a.port, decimalValue d.val ≤ 0xffff

/-- A URL: a path from the root or `*`, or a schema with its authority. -/
structure UrlParts where
  base : Option (Word isAlpha × Authority)
  tail : UrlTail
  start : tail.path.head? ∈ (if base.isSome then [none, some 47] else [some 47, some 42])
  portFits : ∀ b ∈ base, b.2.PortFits

/-- A piece of a URL and the field it is recorded in. -/
abbrev UrlPiece := Option UrlField × Bytes

def HostName.fieldText : HostName → Bytes
  | .name s => s.val
  | .v6 addr none => addr.val
  | .v6 addr (some zone) => addr.val ++ 37 :: zone.val

def HostName.pieces (h : HostName) : List UrlPiece :=
  match h with
  | .name _ => [(some .host, h.fieldText)]
  | .v6 _ _ => [(none, [91]), (some .host, h.fieldText), (none, [93])]

def Authority.userinfoPieces (a : Authority) : List UrlPiece :=
  match a.userinfo with
  | none => []
  | some s => [(some .userinfo, s.val), (none, [64])]

def Authority.portPieces (a : Authority) : List UrlPiece :=
  match a.port with
  | none => []
  | some d => [(none, [58]), (some .port, d.val)]

def Authority.pieces (a : Authority) : List UrlPiece :=
  a.userinfoPieces ++ a.host.pieces ++ a.portPieces

def queryPieces : Option Bytes → List UrlPiece
  | none => []
  | some q => [(none, [63]), (some .query, q)]

def fragmentPieces : Option (ℕ × Bytes) → List UrlPiece
  | none => []
  | some (extra, f) => [(none, List.replicate (extra+1) 35), (some .fragment, f)]

def UrlTail.pieces (t : UrlTail) : List UrlPiece :=
  (some .path, t.path) :: queryPieces t.query ++ fragmentPieces t.fragment

def UrlParts.pieces (p : UrlParts) : List UrlPiece :=
  match p.base with
  | none => p.tail.pieces
  | some (schema, a) => (some .schema, schema.val) :: (none, ascii "://") :: a.pieces ++ p.tail.pieces

/-- What the parser is to record of a text with these pieces. -/
def laidRecord (ps : List UrlPiece) (port : UInt16) (u₀ : ParserUrl) : ParserUrl where
  fieldSet := Finset.univ.filter fun f => (laidSpan f 0 ps).isSome
  port := port
  fieldData := fun f => match laidSpan f 0 ps with
    | none => u₀.fieldData f
    | some (p, n) => ⟨UInt16.ofNat p, UInt16.ofNat n⟩

def Authority.portValue (a : Authority) : UInt16 :=
  match a.port with
  | none => 0
  | some d => UInt16.ofNat (decimalValue d.val)

def UrlParts.portValue (p : UrlParts) : UInt16 :=
  match p.base with
  | none => 0
  | some (_, a) => a.portValue

section urlChar

variable (c : UInt8)

/-- The guard in front of the switch stops what the switch would stop. -/
theorem parseUrlChar_eq (s : UrlState) : parseUrlChar s c = urlSwitch s c := by
  have hwhite : ∀ d ∈ ([32, 13, 10, 9, 12] : Bytes), urlSwitch s d = .dead := by
    cases s <;> decide +kernel
  unfold parseUrlChar
  split_ifs with hspace htab
  · exact (hwhite c (by grind)).symm
  · exact (hwhite c (by grind)).symm
  · rfl

theorem parseUrlChar_dead : parseUrlChar .dead c = .dead := parseUrlChar_eq c .dead

theorem parseUrlChar_queryString : parseUrlChar .queryString c =
    if isQueryChar c then .queryString else if c = 35 then .fragmentStart else .dead := by
  rw [parseUrlChar_eq, isQueryChar]
  by_cases hu : isUrlChar c = true <;> by_cases hq : c = 63 <;> simp [urlSwitch, hu, hq]

theorem parseUrlChar_queryStringStart : parseUrlChar .queryStringStart c =
    parseUrlChar .queryString c := by
  rw [parseUrlChar_eq, parseUrlChar_eq]
  rfl

theorem parseUrlChar_fragment : parseUrlChar .fragment c =
    if isFragmentChar c then .fragment else .dead := by
  rw [parseUrlChar_eq, isFragmentChar]
  by_cases hu : isUrlChar c = true <;> by_cases hq : c = 63 <;> simp [urlSwitch, hu, hq]

theorem parseUrlChar_fragmentStart : parseUrlChar .fragmentStart c =
    if c = 35 then .fragmentStart else if isFragmentChar c then .fragment else .dead := by
  rw [parseUrlChar_eq, isFragmentChar]
  by_cases hh : c = 35
  · rw [hh]
    rfl
  · by_cases hu : isUrlChar c = true <;> by_cases hq : c = 63 <;> simp [urlSwitch, hu, hq, hh]

theorem parseUrlChar_path : parseUrlChar .path c =
    if isUrlChar c then .path else if c = 63 then .queryStringStart
    else if c = 35 then .fragmentStart else .dead :=
  parseUrlChar_eq c .path

/-- A byte of the server part other than `@`. -/
def isServerChar (c : UInt8) : Bool := isUserinfoChar c || c ∈ ascii "[]"

theorem parseServerChar_eq : parseServerChar c =
    if c = 47 then .path else if c = 63 then .queryStringStart else if c = 64 then .serverWithAt
    else if isServerChar c then .server else .dead := rfl

end urlChar

/-- The scanner does not die on the text. -/
def Survives (s : UrlState) (t : Bytes) : Prop := t.foldl parseUrlChar s ≠ .dead

/-- Behind a block that stays in `s` comes a byte that leads elsewhere, if any. -/
theorem Survives.split {s : UrlState} {t : Bytes} (h : Survives s t) {P : UInt8 → Prop}
    (hP : ∀ c, parseUrlChar s c = s → P c) :
    (∀ c ∈ t, P c) ∨
    ∃ w c r, t = w ++ c :: r ∧ (∀ d ∈ w, P d) ∧ parseUrlChar s c ≠ s ∧
      parseUrlChar s c ≠ .dead ∧ Survives (parseUrlChar s c) r := by
  rcases live_split parseUrlChar_dead hP h with ⟨hstay, -⟩ | ⟨w, c, r, ht, hw, hc, hlive, hend⟩
  · exact .inl hstay
  · refine .inr ⟨w, c, r, ht, hw, hc, hlive, ?_⟩
    rw [Survives, hend]
    exact h

/-- The bytes of a fragment, which may be missing, behind its `#`s. -/
def FragmentWellFormed (f : Option (ℕ × Bytes)) : Prop :=
  ∀ g ∈ f, (∀ c ∈ g.2, isFragmentChar c = true) ∧ g.2.head? ≠ some 35

def fragmentText (f : Option (ℕ × Bytes)) : Bytes := laidText (fragmentPieces f)

def queryText (q : Option Bytes) : Bytes := laidText (queryPieces q)

theorem survives_fragment {t : Bytes} (h : Survives .fragment t) :
    ∀ c ∈ t, isFragmentChar c = true := by
  have hstays (c : UInt8) (hc : parseUrlChar .fragment c = .fragment) : isFragmentChar c = true := by
    rw [parseUrlChar_fragment] at hc
    split_ifs at hc with hf
    exact hf
  rcases h.split hstays with hall | ⟨w, c, r, -, -, hc, hlive, -⟩
  · exact hall
  · rw [parseUrlChar_fragment] at hc hlive
    split_ifs at hc hlive
    · exact absurd rfl hc
    · exact absurd rfl hlive

/-- Behind the first `#`: more of them, then the fragment. -/
theorem survives_fragmentStart {t : Bytes} (h : Survives .fragmentStart t) :
    ∃ f, 35 :: t = fragmentText f ∧ FragmentWellFormed f := by
  have hstays (c : UInt8) (hc : parseUrlChar .fragmentStart c = .fragmentStart) : c = 35 := by
    rw [parseUrlChar_fragmentStart] at hc
    split_ifs at hc with h35
    exact h35
  have hhashes {w : Bytes} (hw : ∀ c ∈ w, c = 35) : w = List.replicate w.length 35 :=
    List.eq_replicate_iff.mpr ⟨rfl, hw⟩
  rcases h.split hstays with hall | ⟨w, c, r, rfl, hw, hc, hlive, hrest⟩
  · refine ⟨some (t.length, []), ?_, ?_⟩
    · simp [fragmentText, fragmentPieces, List.replicate_succ, ← hhashes hall]
    · rintro g ⟨⟩
      exact ⟨nofun, nofun⟩
  · rw [parseUrlChar_fragmentStart] at hc hlive hrest
    split_ifs at hc hlive hrest with h35 hf
    · exact absurd rfl hc
    · refine ⟨some (w.length, c :: r), ?_, ?_⟩
      · simp [fragmentText, fragmentPieces, List.replicate_succ, ← hhashes hw]
      · rintro g ⟨⟩
        refine ⟨?_, fun hhead => h35 (Option.some.inj hhead)⟩
        intro d hd
        rcases List.mem_cons.mp hd with rfl | hd
        · exact hf
        · exact survives_fragment hrest d hd
    · exact absurd rfl hlive

theorem survives_queryString {t : Bytes} (h : Survives .queryString t) :
    ∃ q f, t = q ++ fragmentText f ∧ (∀ c ∈ q, isQueryChar c = true) ∧ FragmentWellFormed f := by
  have hstays (c : UInt8) (hc : parseUrlChar .queryString c = .queryString) :
      isQueryChar c = true := by
    rw [parseUrlChar_queryString] at hc
    split_ifs at hc with hq
    exact hq
  rcases h.split hstays with hall | ⟨w, c, r, rfl, hw, hc, hlive, hrest⟩
  · exact ⟨t, none, (List.append_nil t).symm, hall, nofun⟩
  · rw [parseUrlChar_queryString] at hc hlive hrest
    split_ifs at hc hlive hrest with hq h35
    · exact absurd rfl hc
    · obtain ⟨f, hf, hchars⟩ := survives_fragmentStart hrest
      rw [h35, hf]
      exact ⟨w, f, rfl, hw, hchars⟩
    · exact absurd rfl hlive

/-- Behind the `?`. -/
theorem survives_queryStringStart {t : Bytes} (h : Survives .queryStringStart t) :
    ∃ q f, 63 :: t = queryText (some q) ++ fragmentText f ∧ (∀ c ∈ q, isQueryChar c = true) ∧
      FragmentWellFormed f := by
  have hquery : ∃ q f, t = q ++ fragmentText f ∧ (∀ c ∈ q, isQueryChar c = true) ∧
      FragmentWellFormed f := by
    cases t with
    | nil => exact ⟨[], none, rfl, nofun, nofun⟩
    | cons c t =>
      refine survives_queryString ?_
      rw [Survives, List.foldl_cons, ← parseUrlChar_queryStringStart]
      exact h
  obtain ⟨q, f, rfl, hchars, hfragment⟩ := hquery
  refine ⟨q, f, ?_, hchars, hfragment⟩
  simp [queryText, queryPieces]

theorem UrlTail.text_eq (t : UrlTail) :
    laidText t.pieces = t.path ++ queryText t.query ++ fragmentText t.fragment := by
  simp [UrlTail.pieces, laidText, queryText, fragmentText]

/-- Behind the first byte of the path. -/
theorem survives_path {c : UInt8} {t : Bytes} (hc : isUrlChar c = true) (h : Survives .path t) :
    ∃ tail : UrlTail, c :: t = laidText tail.pieces ∧ tail.path.head? = some c := by
  have hstays (d : UInt8) (hd : parseUrlChar .path d = .path) : isUrlChar d = true := by
    rw [parseUrlChar_path] at hd
    split_ifs at hd with hu
    exact hu
  have hpath {w : Bytes} (hw : ∀ d ∈ w, isUrlChar d = true) : ∀ d ∈ c :: w, isUrlChar d = true := by
    intro d hd
    rcases List.mem_cons.mp hd with rfl | hd
    · exact hc
    · exact hw d hd
  rcases h.split hstays with hall | ⟨w, d, r, rfl, hw, hd, hlive, hrest⟩
  · refine ⟨⟨c :: t, none, none, hpath hall, nofun, nofun, nofun⟩, ?_, rfl⟩
    rw [UrlTail.text_eq]
    simp [queryText, queryPieces, fragmentText, fragmentPieces]
  · rw [parseUrlChar_path] at hd hlive hrest
    split_ifs at hd hlive hrest with hu h63 h35
    · exact absurd rfl hd
    · obtain ⟨q, f, htext, hquery, hfragment⟩ := survives_queryStringStart hrest
      refine ⟨⟨c :: w, some q, f, hpath hw, ?_, hfragment, fun _ => .inl nofun⟩, ?_, rfl⟩
      · rintro q' ⟨⟩
        exact hquery
      · rw [UrlTail.text_eq, h63, htext]
        simp
    · obtain ⟨f, htext, hfragment⟩ := survives_fragmentStart hrest
      refine ⟨⟨c :: w, none, f, hpath hw, nofun, hfragment, fun _ => .inl nofun⟩, ?_, rfl⟩
      rw [UrlTail.text_eq, h35, htext]
      simp [queryText, queryPieces]
    · exact absurd rfl hlive

/-- Behind the server part: nothing, a path from the root, or a query. -/
def UrlTail.followsServer (t : UrlTail) : Prop := t.path.head? ∈ [none, some 47]

def UrlTail.empty : UrlTail := ⟨[], none, none, nofun, nofun, nofun, nofun⟩

theorem survives_slash {t : Bytes} (h : Survives .path t) :
    ∃ tail : UrlTail, 47 :: t = laidText tail.pieces ∧ tail.followsServer := by
  obtain ⟨tail, htext, hhead⟩ := survives_path (c := 47) (by decide) h
  refine ⟨tail, htext, ?_⟩
  rw [UrlTail.followsServer, hhead]
  exact List.mem_cons_of_mem _ (List.mem_singleton_self _)

theorem survives_queryOnly {t : Bytes} (h : Survives .queryStringStart t) :
    ∃ tail : UrlTail, 63 :: t = laidText tail.pieces ∧ tail.followsServer := by
  obtain ⟨q, f, htext, hquery, hfragment⟩ := survives_queryStringStart h
  refine ⟨⟨[], some q, f, nofun, ?_, hfragment, fun _ => .inr rfl⟩, ?_, List.mem_cons_self ..⟩
  · rintro q' ⟨⟩
    exact hquery
  · rw [UrlTail.text_eq, htext]
    rfl

/-- The states of the server part. -/
def UrlState.inServer : UrlState → Bool
  | .serverStart | .server | .serverWithAt => true
  | _ => false

/-- A step in the server part: it ends, or it goes on. -/
theorem parseUrlChar_inServer {s : UrlState} (hs : s.inServer = true) (c : UInt8)
    (h : parseUrlChar s c ≠ .dead) :
    (c = 47 ∧ parseUrlChar s c = .path) ∨ (c = 63 ∧ parseUrlChar s c = .queryStringStart) ∨
    (c = 64 ∧ parseUrlChar s c = .serverWithAt) ∨
    (isServerChar c = true ∧ c ≠ 64 ∧ parseUrlChar s c = .server) := by
  have hshared (h : parseServerChar c ≠ .dead) :
      (c = 47 ∧ parseServerChar c = .path) ∨ (c = 63 ∧ parseServerChar c = .queryStringStart) ∨
      (c = 64 ∧ parseServerChar c = .serverWithAt) ∨
      (isServerChar c = true ∧ c ≠ 64 ∧ parseServerChar c = .server) := by
    rw [parseServerChar_eq] at h ⊢
    split_ifs at h ⊢ with h47 h63 h64 hsv
    · exact .inl ⟨h47, rfl⟩
    · exact .inr (.inl ⟨h63, rfl⟩)
    · exact .inr (.inr (.inl ⟨h64, rfl⟩))
    · exact .inr (.inr (.inr ⟨hsv, h64, rfl⟩))
    · exact absurd rfl h
  rw [parseUrlChar_eq] at h ⊢
  cases s with
  | serverStart | server => exact hshared h
  | serverWithAt =>
    by_cases h64 : c = 64
    · rw [urlSwitch, if_pos h64] at h
      exact absurd rfl h
    · rw [urlSwitch, if_neg h64] at h ⊢
      exact hshared h
  | _ => cases hs

/-- The server part: `@` and server bytes, on which the scanner lives. -/
structure ServerText (sv : Bytes) : Prop where
  chars : ∀ c ∈ sv, isServerChar c = true ∨ c = 64
  survives : Survives .serverStart sv

theorem survives_server {s : UrlState} (hs : s.inServer = true) {t : Bytes} (h : Survives s t) :
    ∃ sv tail, t = sv ++ laidText (UrlTail.pieces tail) ∧ tail.followsServer ∧
      (∀ c ∈ sv, isServerChar c = true ∨ c = 64) ∧ Survives s sv := by
  induction t generalizing s with
  | nil =>
    refine ⟨[], .empty, rfl, List.mem_cons_self .., nofun, ?_⟩
    intro hdead
    rw [List.foldl_nil] at hdead
    rw [hdead] at hs
    cases hs
  | cons c t ih =>
    rw [Survives, List.foldl_cons] at h
    have hempty : Survives s [] := by
      intro hdead
      rw [List.foldl_nil] at hdead
      rw [hdead] at hs
      cases hs
    have hmore (hin : (parseUrlChar s c).inServer = true) (hc : isServerChar c = true ∨ c = 64) :
        ∃ sv tail, c :: t = sv ++ laidText (UrlTail.pieces tail) ∧ tail.followsServer ∧
          (∀ c ∈ sv, isServerChar c = true ∨ c = 64) ∧ Survives s sv := by
      obtain ⟨sv, tail, htext, hfollows, hchars, hlive⟩ := ih hin h
      refine ⟨c :: sv, tail, by rw [htext, List.cons_append], hfollows, ?_, hlive⟩
      intro d hd
      rcases List.mem_cons.mp hd with rfl | hd
      · exact hc
      · exact hchars d hd
    rcases parseUrlChar_inServer hs c (step_ne_dead parseUrlChar_dead h) with
      ⟨rfl, hstep⟩ | ⟨rfl, hstep⟩ | ⟨rfl, hstep⟩ | ⟨hc, -, hstep⟩
    · rw [hstep] at h
      obtain ⟨tail, htext, hfollows⟩ := survives_slash h
      exact ⟨[], tail, htext, hfollows, nofun, hempty⟩
    · rw [hstep] at h
      obtain ⟨tail, htext, hfollows⟩ := survives_queryOnly h
      exact ⟨[], tail, htext, hfollows, nofun, hempty⟩
    · exact hmore (by rw [hstep]; rfl) (.inr rfl)
    · exact hmore (by rw [hstep]; rfl) (.inl hc)

/-- The texts that the loop survives: a path, the beginning of a schema with its slashes, or
a schema with a server part. -/
inductive UrlShape : Bytes → Prop where
  | rooted (tail : UrlTail) (h : tail.path.head? ∈ [some 47, some 42]) :
      UrlShape (laidText tail.pieces)
  | stub (schema : Word isAlpha) (slashes : Bytes) (h : slashes ∈ [[], [58], [58, 47]]) :
      UrlShape (schema.val ++ slashes)
  | absolute (schema : Word isAlpha) (sv : Bytes) (hsv : ServerText sv) (tail : UrlTail)
      (h : tail.followsServer) :
      UrlShape (schema.val ++ (ascii "://" ++ (sv ++ laidText tail.pieces)))

/-- Behind the colon of the schema. -/
theorem survives_schemaSlash {t : Bytes} (h : Survives .schemaSlash t) (schema : Word isAlpha) :
    UrlShape (schema.val ++ 58 :: t) := by
  cases t with
  | nil => exact .stub schema [58] (by decide)
  | cons c t =>
    have hc := step_ne_dead parseUrlChar_dead h
    rw [Survives, List.foldl_cons] at h
    rw [parseUrlChar_eq, urlSwitch] at h hc
    split_ifs at h hc with h47
    · cases t with
      | nil =>
        rw [h47]
        exact .stub schema [58, 47] (by decide)
      | cons d t =>
        have hd := step_ne_dead parseUrlChar_dead h
        rw [List.foldl_cons] at h
        rw [parseUrlChar_eq, urlSwitch] at h hd
        split_ifs at h hd with hd47
        · obtain ⟨sv, tail, htext, hfollows, hchars, hlive⟩ := survives_server rfl h
          rw [h47, hd47, htext]
          exact .absolute schema sv ⟨hchars, hlive⟩ tail hfollows
        · exact absurd rfl hd
    · exact absurd rfl hc

theorem shape_of_survives {t : Bytes} (ht : t ≠ []) (h : Survives .spacesBeforeUrl t) :
    UrlShape t := by
  cases t with
  | nil => exact absurd rfl ht
  | cons c t =>
    have hc := step_ne_dead parseUrlChar_dead h
    rw [Survives, List.foldl_cons] at h
    rw [parseUrlChar_eq, urlSwitch] at h hc
    split_ifs at h hc with hroot halpha
    · have hurl : isUrlChar c = true := by
        rcases hroot with rfl | rfl <;> decide
      obtain ⟨tail, htext, hhead⟩ := survives_path hurl h
      rw [htext]
      refine .rooted tail ?_
      rw [hhead]
      rcases hroot with rfl | rfl <;> decide
    · have hstays (d : UInt8) (hd : parseUrlChar .schema d = .schema) : isAlpha d = true := by
        rw [parseUrlChar_eq, urlSwitch] at hd
        split_ifs at hd with hd'
        exact hd'
      rcases Survives.split h hstays with hall | ⟨w, d, r, rfl, hw, hd, hlive, hrest⟩
      · have hstub := UrlShape.stub (Word.cons c t halpha hall) [] (by decide)
        rw [List.append_nil] at hstub
        exact hstub
      · rw [parseUrlChar_eq, urlSwitch] at hd hlive hrest
        split_ifs at hd hlive hrest with halpha' hcolon
        · exact absurd rfl hd
        · rw [hcolon]
          exact survives_schemaSlash hrest (Word.cons c w halpha hw)
        · exact absurd rfl hlive
    · exact absurd rfl hc

section host

/-- The scanner of the host ends the text in a state in which the host may end. -/
def HostEnds (s : HttpHostState) (t : Bytes) : Prop := (t.foldl cHttpParseHostChar s).final = true

theorem cHttpParseHostChar_dead (c : UInt8) : cHttpParseHostChar .dead c = .dead := rfl

theorem HostEnds.survives {s : HttpHostState} {t : Bytes} (h : HostEnds s t) :
    t.foldl cHttpParseHostChar s ≠ .dead := by
  intro hdead
  rw [HostEnds, hdead] at h
  cases h

theorem HostEnds.step {s : HttpHostState} {c : UInt8} {t : Bytes} (h : HostEnds s (c :: t)) :
    cHttpParseHostChar s c ≠ .dead ∧ HostEnds (cHttpParseHostChar s c) t :=
  ⟨step_ne_dead cHttpParseHostChar_dead h.survives, h⟩

theorem HostEnds.split {s : HttpHostState} {t : Bytes} (h : HostEnds s t) {P : UInt8 → Prop}
    (hP : ∀ c, cHttpParseHostChar s c = s → P c) :
    ((∀ c ∈ t, P c) ∧ s.final = true) ∨
    ∃ w c r, t = w ++ c :: r ∧ (∀ d ∈ w, P d) ∧ cHttpParseHostChar s c ≠ s ∧
      cHttpParseHostChar s c ≠ .dead ∧ HostEnds (cHttpParseHostChar s c) r := by
  rw [HostEnds] at h
  rcases live_split cHttpParseHostChar_dead hP (HostEnds.survives h) with
    ⟨hstay, hend⟩ | ⟨w, c, r, ht, hw, hc, hlive, hend⟩
  · rw [hend] at h
    exact .inl ⟨hstay, h⟩
  · refine .inr ⟨w, c, r, ht, hw, hc, hlive, ?_⟩
    rw [HostEnds, hend]
    exact h

def portText : Option (Word isNum) → Bytes
  | none => []
  | some d => 58 :: d.val

theorem hostEnds_portStart {t : Bytes} (h : HostEnds .hostPortStart t) :
    ∃ d : Word isNum, t = d.val := by
  have hstays (d : UInt8) (hd : cHttpParseHostChar .hostPort d = .hostPort) : isNum d = true := by
    rw [cHttpParseHostChar] at hd
    split_ifs at hd with hnum
    exact hnum
  cases t with
  | nil => cases h
  | cons c t =>
    obtain ⟨hc, h⟩ := h.step
    rw [cHttpParseHostChar] at h hc
    split_ifs at h hc with hnum
    · rcases h.split hstays with ⟨hall, -⟩ | ⟨w, d, r, -, -, hd, hlive, -⟩
      · exact ⟨Word.cons c t hnum hall, rfl⟩
      · rw [cHttpParseHostChar] at hd hlive
        split_ifs at hd hlive
        · exact absurd rfl hd
        · exact absurd rfl hlive
    · exact absurd rfl hc

/-- Behind the closing bracket. -/
theorem hostEnds_v6End {t : Bytes} (h : HostEnds .hostV6End t) : ∃ d, t = portText d := by
  cases t with
  | nil => exact ⟨none, rfl⟩
  | cons c t =>
    obtain ⟨hc, h⟩ := h.step
    rw [cHttpParseHostChar] at h hc
    split_ifs at h hc with hcolon
    · obtain ⟨d, rfl⟩ := hostEnds_portStart h
      rw [hcolon]
      exact ⟨some d, rfl⟩
    · exact absurd rfl hc

theorem hostEnds_v6Zone {t : Bytes} (h : HostEnds .hostV6Zone t) :
    ∃ z d, t = z ++ 93 :: portText d ∧ ∀ c ∈ z, isZoneChar c = true := by
  have hstays (c : UInt8) (hc : cHttpParseHostChar .hostV6Zone c = .hostV6Zone) :
      isZoneChar c = true := by
    rw [cHttpParseHostChar] at hc
    split_ifs at hc with hend hzone
    exact hzone
  rcases h.split hstays with ⟨-, hfinal⟩ | ⟨w, c, r, rfl, hw, hc, hlive, hrest⟩
  · cases hfinal
  · rw [cHttpParseHostChar] at hc hlive hrest
    split_ifs at hc hlive hrest with hend hzone
    · obtain ⟨d, rfl⟩ := hostEnds_v6End hrest
      rw [hend]
      exact ⟨w, d, rfl, hw⟩
    · exact absurd rfl hc
    · exact absurd rfl hlive

theorem hostEnds_v6ZoneStart {t : Bytes} (h : HostEnds .hostV6ZoneStart t) :
    ∃ (z : Word isZoneChar) (d : Option (Word isNum)), t = z.val ++ 93 :: portText d := by
  cases t with
  | nil => cases h
  | cons c t =>
    obtain ⟨hc, h⟩ := h.step
    rw [cHttpParseHostChar] at h hc
    split_ifs at h hc with hzone
    · obtain ⟨z, d, rfl, hz⟩ := hostEnds_v6Zone h
      exact ⟨Word.cons c z hzone hz, d, rfl⟩
    · exact absurd rfl hc

/-- Behind the opening bracket. -/
theorem hostEnds_v6Start {t : Bytes} (h : HostEnds .hostV6Start t) :
    ∃ (addr : Word isV6Char) (zone : Option (Word isZoneChar)) (d : Option (Word isNum)),
      91 :: t = laidText (HostName.v6 addr zone).pieces ++ portText d := by
  have hstays (c : UInt8) (hc : cHttpParseHostChar .hostV6 c = .hostV6) : isV6Char c = true := by
    rw [cHttpParseHostChar] at hc
    split_ifs at hc with hend hv6
    exact hv6
  cases t with
  | nil => cases h
  | cons c t =>
    obtain ⟨hc, h⟩ := h.step
    rw [cHttpParseHostChar] at h hc
    split_ifs at h hc with hv6
    · rcases h.split hstays with ⟨-, hfinal⟩ | ⟨w, e, r, rfl, hw, he, hlive, hrest⟩
      · cases hfinal
      · rw [cHttpParseHostChar] at he hlive hrest
        split_ifs at he hlive hrest with hend hv6' hpercent
        · obtain ⟨d, rfl⟩ := hostEnds_v6End hrest
          refine ⟨Word.cons c w hv6 hw, none, d, ?_⟩
          simp [HostName.pieces, HostName.fieldText, Word.cons, hend]
        · exact absurd rfl he
        · obtain ⟨z, d, rfl⟩ := hostEnds_v6ZoneStart hrest
          refine ⟨Word.cons c w hv6 hw, some z, d, ?_⟩
          simp [HostName.pieces, HostName.fieldText, Word.cons, hpercent]
        · exact absurd rfl hlive
    · exact absurd rfl hc

theorem hostEnds_hostStart {t : Bytes} (h : HostEnds .hostStart t) :
    ∃ (host : HostName) (d : Option (Word isNum)), t = laidText host.pieces ++ portText d := by
  have hstays (c : UInt8) (hc : cHttpParseHostChar .host c = .host) : isHostChar c = true := by
    rw [cHttpParseHostChar] at hc
    split_ifs at hc with hhost
    exact hhost
  cases t with
  | nil => cases h
  | cons c t =>
    obtain ⟨hc, h⟩ := h.step
    rw [cHttpParseHostChar] at h hc
    split_ifs at h hc with hbracket hhost
    · obtain ⟨addr, zone, d, htext⟩ := hostEnds_v6Start h
      rw [hbracket, htext]
      exact ⟨.v6 addr zone, d, rfl⟩
    · rcases h.split hstays with ⟨hall, -⟩ | ⟨w, e, r, rfl, hw, he, hlive, hrest⟩
      · refine ⟨.name (Word.cons c t hhost hall), none, ?_⟩
        simp [HostName.pieces, HostName.fieldText, Word.cons, portText]
      · rw [cHttpParseHostChar] at he hlive hrest
        split_ifs at he hlive hrest with hhost' hcolon
        · exact absurd rfl he
        · obtain ⟨d, rfl⟩ := hostEnds_portStart hrest
          refine ⟨.name (Word.cons c w hhost hw), some d, ?_⟩
          simp [HostName.pieces, HostName.fieldText, Word.cons, portText, hcolon]
        · exact absurd rfl hlive
    · exact absurd rfl hc

theorem hostEnds_userinfo {t : Bytes} (h : HostEnds .userinfo t) :
    ∃ w r, t = w ++ 64 :: r ∧ (∀ c ∈ w, isUserinfoChar c = true) ∧ HostEnds .hostStart r := by
  have hstays (c : UInt8) (hc : cHttpParseHostChar .userinfo c = .userinfo) :
      isUserinfoChar c = true := by
    rw [cHttpParseHostChar] at hc
    split_ifs at hc with hat huser
    exact huser
  rcases h.split hstays with ⟨-, hfinal⟩ | ⟨w, c, r, rfl, hw, hc, hlive, hrest⟩
  · cases hfinal
  · rw [cHttpParseHostChar] at hc hlive hrest
    split_ifs at hc hlive hrest with hat huser
    · rw [hat]
      exact ⟨w, r, rfl, hw, hrest⟩
    · exact absurd rfl hc
    · exact absurd rfl hlive

theorem portText_eq (a : Authority) : portText a.port = laidText a.portPieces := by
  rw [Authority.portPieces]
  cases a.port with
  | none => rfl
  | some d => simp [portText]

theorem Authority.text_eq (a : Authority) : laidText a.pieces =
    laidText a.userinfoPieces ++ (laidText a.host.pieces ++ portText a.port) := by
  rw [portText_eq]
  simp [Authority.pieces, laidText]

/-- The texts with which the host's scanner ends well, by the state it starts in. -/
theorem authority_of_hostEnds {foundAt : Bool} {t : Bytes}
    (h : HostEnds (if foundAt then .userinfoStart else .hostStart) t) :
    ∃ a : Authority, t = laidText a.pieces ∧ a.userinfo.isSome = foundAt := by
  cases foundAt with
  | false =>
    obtain ⟨host, d, htext⟩ := hostEnds_hostStart h
    refine ⟨⟨none, host, d⟩, ?_, rfl⟩
    rw [Authority.text_eq, htext]
    rfl
  | true =>
    have hsplit : ∃ w r, t = w ++ 64 :: r ∧ (∀ c ∈ w, isUserinfoChar c = true) ∧
        HostEnds .hostStart r := by
      cases t with
      | nil => cases h
      | cons c t => exact hostEnds_userinfo (t := c :: t) h
    obtain ⟨w, r, rfl, hw, hrest⟩ := hsplit
    obtain ⟨host, d, rfl⟩ := hostEnds_hostStart hrest
    refine ⟨⟨some ⟨w, hw⟩, host, d⟩, ?_, rfl⟩
    rw [Authority.text_eq]
    simp [Authority.userinfoPieces]

end host

end CHttp
