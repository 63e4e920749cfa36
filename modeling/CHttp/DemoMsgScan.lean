import CHttp.DemoMsg

/-! What the demo parser does with a stream, as an automaton over bytes that carry whether
they end their block, and the part of a stream in which these marks make no difference. -/
namespace CHttp

inductive DemoPhase where
  | idle | body | recovery
  deriving DecidableEq, Repr

/-- The phase and the content of the message being put together. -/
structure DemoScan where
  phase : DemoPhase
  text : Bytes
  deriving DecidableEq, Repr

def demoScanStart : DemoScan := ⟨.idle, []⟩

/-- One byte, with its mark; the result lists the body that is handed over, if any. -/
def demoNext (s : DemoScan) (x : UInt8 × Bool) : DemoScan × List Bytes :=
  match s.phase with
  | .idle => (⟨if x.1 = chStx then .body else .idle, s.text⟩, [])
  | .body =>
    if isprint x.1 then (⟨.body, s.text ++ [x.1]⟩, [])
    else if x.1 = chEtx then (⟨.idle, []⟩, [s.text])
    else (⟨.recovery, s.text⟩, [])
  | .recovery =>
    if x.1 = chStx ∧ x.2 = false then (⟨.body, s.text⟩, [])
    else (⟨.recovery, if x.2 then [] else s.text⟩, [])

/-- The bodies handed over and the final state, or `none` where a message outgrew `c`. -/
def demoFeed (c : ℕ) : DemoScan → List (UInt8 × Bool) → List Bytes × Option DemoScan
  | s, [] => ([], some s)
  | s, x :: xs =>
    if (demoNext s x).1.text.length ≤ c then
      ((demoNext s x).2 ++ (demoFeed c (demoNext s x).1 xs).1, (demoFeed c (demoNext s x).1 xs).2)
    else ([], none)

/-- One part of a stream after another. -/
def scanThen (a : List Bytes × Option DemoScan) (f : DemoScan → List Bytes × Option DemoScan) :
    List Bytes × Option DemoScan :=
  match a.2 with
  | none => (a.1, none)
  | some t => (a.1 ++ (f t).1, (f t).2)

/-- The bytes of a block, the last one marked. -/
def markBlock : Bytes → List (UInt8 × Bool)
  | [] => []
  | ch :: rest => (ch, rest.isEmpty) :: markBlock rest

def markBlocks (blocks : List Bytes) : List (UInt8 × Bool) := blocks.flatMap markBlock

@[simp] theorem markBlock_fst (b : Bytes) : (markBlock b).map Prod.fst = b := by
  induction b with
  | nil => rfl
  | cons ch rest ih => rw [markBlock, List.map_cons, ih]

@[simp] theorem markBlocks_fst (blocks : List Bytes) :
    (markBlocks blocks).map Prod.fst = blocks.flatten := by
  induction blocks with
  | nil => rfl
  | cons b blocks ih =>
    rw [markBlocks, List.flatMap_cons, List.map_append, markBlock_fst, List.flatten_cons, ← ih,
      markBlocks]

theorem markBlocks_append (bs bs' : List Bytes) :
    markBlocks (bs ++ bs') = markBlocks bs ++ markBlocks bs' :=
  List.flatMap_append

/-- A stream in blocks of one byte. -/
def singles (stream : Bytes) : List Bytes := stream.map fun ch => [ch]

theorem markBlocks_singles (stream : Bytes) :
    markBlocks (singles stream) = stream.map fun ch => (ch, true) := by
  induction stream with
  | nil => rfl
  | cons ch stream ih =>
    rw [singles, List.map_cons, markBlocks, List.flatMap_cons, List.map_cons, ← ih]
    rfl

section feed

variable (c : ℕ)

theorem demoFeed_cons (s : DemoScan) (x : UInt8 × Bool) (xs : List (UInt8 × Bool))
    (h : (demoNext s x).1.text.length ≤ c) :
    demoFeed c s (x :: xs) =
      ((demoNext s x).2 ++ (demoFeed c (demoNext s x).1 xs).1,
        (demoFeed c (demoNext s x).1 xs).2) :=
  if_pos h

theorem demoFeed_append (s : DemoScan) (xs ys : List (UInt8 × Bool)) :
    demoFeed c s (xs ++ ys) = scanThen (demoFeed c s xs) fun t => demoFeed c t ys := by
  induction xs generalizing s with
  | nil => rfl
  | cons x xs ih =>
    rw [List.cons_append, demoFeed, demoFeed]
    split_ifs with h
    · rw [ih, scanThen, scanThen]
      cases (demoFeed c (demoNext s x).1 xs).2 with
      | none => rfl
      | some t => simp only [List.append_assoc]
    · rfl

theorem demoFeed_one {s t : DemoScan} {x : UInt8 × Bool} {out : List Bytes}
    (hnext : demoNext s x = (t, out)) (h : t.text.length ≤ c) :
    demoFeed c s [x] = (out, some t) := by
  rw [demoFeed_cons c s x [] (by rw [hnext]; exact h), hnext, demoFeed, List.append_nil]

theorem demoFeed_over {s t : DemoScan} {x : UInt8 × Bool} {out : List Bytes}
    (hnext : demoNext s x = (t, out)) (h : ¬t.text.length ≤ c) :
    demoFeed c s [x] = ([], none) := by
  rw [demoFeed, hnext, if_neg h]

/-- Between frames nothing but an STX has an effect. -/
theorem demoFeed_gap (xs ys : List (UInt8 × Bool)) (h : chStx ∉ xs.map Prod.fst) :
    demoFeed c demoScanStart (xs ++ ys) = demoFeed c demoScanStart ys := by
  induction xs with
  | nil => rfl
  | cons x xs ih =>
    rw [List.map_cons, List.mem_cons, not_or] at h
    have hnext : demoNext demoScanStart x = (demoScanStart, []) := by
      simp only [demoNext, demoScanStart, if_neg (Ne.symm h.1)]
    rw [List.cons_append, demoFeed_cons _ _ _ _ (by rw [hnext]; exact Nat.zero_le c), hnext,
      List.nil_append]
    exact ih h.2

/-- Printable bytes extend the message. -/
theorem demoFeed_body (t : Bytes) (xs ys : List (UInt8 × Bool))
    (hp : ∀ ch ∈ xs.map Prod.fst, isprint ch = true) (hc : t.length+xs.length ≤ c) :
    demoFeed c ⟨.body, t⟩ (xs ++ ys) = demoFeed c ⟨.body, t ++ xs.map Prod.fst⟩ ys := by
  induction xs generalizing t with
  | nil => rw [List.nil_append, List.map_nil, List.append_nil]
  | cons x xs ih =>
    rw [List.map_cons, List.forall_mem_cons] at hp
    rw [List.length_cons] at hc
    have hnext : demoNext ⟨.body, t⟩ x = (⟨.body, t ++ [x.1]⟩, []) := by
      simp only [demoNext, if_pos hp.1]
    have hlen : (t ++ [x.1]).length+xs.length ≤ c := by
      rw [List.length_append, List.length_singleton]
      omega
    rw [List.cons_append, demoFeed_cons _ _ _ _ (by rw [hnext]; exact Nat.le_of_add_right_le hlen),
      hnext, List.nil_append, ih (t ++ [x.1]) hp.2 hlen, List.map_cons, List.append_assoc,
      List.singleton_append]

/-- More of them than the message has room for. -/
theorem demoFeed_body_over (t : Bytes) (xs ys : List (UInt8 × Bool))
    (hp : ∀ ch ∈ xs.map Prod.fst, isprint ch = true) (hc : t.length ≤ c)
    (ht : c < t.length+xs.length) :
    (demoFeed c ⟨.body, t⟩ (xs ++ ys)).2 = none := by
  induction xs generalizing t with
  | nil => exact absurd ht (Nat.not_lt.mpr hc)
  | cons x xs ih =>
    rw [List.map_cons, List.forall_mem_cons] at hp
    rw [List.length_cons] at ht
    have hnext : demoNext ⟨.body, t⟩ x = (⟨.body, t ++ [x.1]⟩, []) := by
      simp only [demoNext, if_pos hp.1]
    rw [List.cons_append, demoFeed, hnext]
    split_ifs with hlen
    · refine ih (t ++ [x.1]) hp.2 hlen ?_
      rw [List.length_append, List.length_singleton]
      omega
    · rfl

end feed

/-- The rest of a frame: its body and the ETX that ends it. -/
theorem demoFeed_frame (c : ℕ) (t : Bytes) (xs ys : List (UInt8 × Bool)) (last : Bool)
    (hp : ∀ ch ∈ xs.map Prod.fst, isprint ch = true) (hc : t.length+xs.length ≤ c) :
    demoFeed c ⟨.body, t⟩ (xs ++ (chEtx, last) :: ys) =
      ((t ++ xs.map Prod.fst) :: (demoFeed c demoScanStart ys).1,
        (demoFeed c demoScanStart ys).2) := by
  rw [demoFeed_body c t xs _ hp hc]
  exact demoFeed_cons c _ (chEtx, last) ys (Nat.zero_le c)

/-- The marks of a frame that starts a marked stream and goes on to the byte `ch`. -/
theorem marked_frame {xs : List (UInt8 × Bool)} {body rest : Bytes} {ch : UInt8}
    (h : xs.map Prod.fst = chStx :: body ++ ch :: rest) :
    ∃ first bs last ys, xs = (chStx, first) :: (bs ++ (ch, last) :: ys) ∧
      bs.map Prod.fst = body ∧ ys.map Prod.fst = rest := by
  obtain ⟨⟨_, first⟩, frame, rfl, rfl, hframe⟩ := List.map_eq_cons_iff.mp h
  obtain ⟨bs, tail, rfl, hbs, htail⟩ := List.map_eq_append_iff.mp hframe
  obtain ⟨⟨_, last⟩, ys, rfl, rfl, hys⟩ := List.map_eq_cons_iff.mp htail
  exact ⟨first, bs, last, ys, rfl, hbs, hys⟩

/-- Frames of printable bytes, with anything but STX before, between and after them. -/
inductive Traffic : Bytes → List Bytes → Prop where
  | gap {g : Bytes} (hg : chStx ∉ g) : Traffic g []
  | frame {g body rest : Bytes} {bodies : List Bytes} (hg : chStx ∉ g)
      (hbody : ∀ ch ∈ body, isprint ch = true) (h : Traffic rest bodies) :
      Traffic (g ++ (chStx :: body ++ chEtx :: rest)) (body :: bodies)

/-- An STX that starts a frame. -/
theorem demoFeed_stx (c : ℕ) (xs : List (UInt8 × Bool)) (first : Bool) :
    demoFeed c demoScanStart ((chStx, first) :: xs) = demoFeed c ⟨.body, []⟩ xs :=
  demoFeed_cons c demoScanStart (chStx, first) xs (Nat.zero_le c)

/-- Wherever it is cut, well-formed traffic is handed over frame by frame. -/
theorem Traffic.feed {b : Bytes} {bodies : List Bytes} (h : Traffic b bodies) (c : ℕ)
    (hc : ∀ body ∈ bodies, body.length ≤ c) (xs ys : List (UInt8 × Bool))
    (hxs : xs.map Prod.fst = b) :
    demoFeed c demoScanStart (xs ++ ys) =
      (bodies ++ (demoFeed c demoScanStart ys).1, (demoFeed c demoScanStart ys).2) := by
  induction h generalizing xs with
  | gap hg => exact demoFeed_gap c xs ys (hxs ▸ hg)
  | @frame g body rest bodies hg hbody h ih =>
    rw [List.forall_mem_cons] at hc
    obtain ⟨gs, tail, rfl, hgs, htail⟩ := List.map_eq_append_iff.mp hxs
    obtain ⟨first, bs, last, rs, rfl, hbs, hrs⟩ := marked_frame htail
    have hlen : ([] : Bytes).length+bs.length ≤ c := by
      rw [List.length_nil, Nat.zero_add, ← List.length_map Prod.fst, hbs]
      exact hc.1
    rw [List.append_assoc, demoFeed_gap c gs _ (hgs ▸ hg), List.cons_append, demoFeed_stx,
      List.append_assoc, List.cons_append, demoFeed_frame c [] bs _ last (hbs ▸ hbody) hlen,
      ih hc.2 rs hrs, hbs, List.nil_append, List.cons_append]

/-- A frame with this body is in the stream. -/
def Framed (stream body : Bytes) : Prop :=
  (∃ pre post, stream = pre ++ (chStx :: body ++ chEtx :: post)) ∧ ∀ ch ∈ body, isprint ch = true

theorem Framed.append_left {stream body : Bytes} (h : Framed stream body) (pre : Bytes) :
    Framed (pre ++ stream) body := by
  obtain ⟨⟨p, q, rfl⟩, hbody⟩ := h
  exact ⟨⟨pre ++ p, q, (List.append_assoc _ _ _).symm⟩, hbody⟩

theorem Framed.append_right {stream body : Bytes} (h : Framed stream body) (post : Bytes) :
    Framed (stream ++ post) body := by
  obtain ⟨⟨p, q, rfl⟩, hbody⟩ := h
  exact ⟨⟨p, q ++ post, by simp only [List.append_assoc, List.cons_append]⟩, hbody⟩

theorem Traffic.framed {b : Bytes} {bodies : List Bytes} (h : Traffic b bodies) :
    ∀ body ∈ bodies, Framed b body := by
  induction h with
  | gap hg => exact nofun
  | @frame g body rest bodies hg hbody h ih =>
    refine List.forall_mem_cons.mpr ⟨⟨⟨g, rest, rfl⟩, hbody⟩, fun body' hmem => ?_⟩
    have hrest := (ih body' hmem).append_left (g ++ chStx :: body ++ [chEtx])
    simpa only [List.append_assoc, List.cons_append, List.nil_append] using hrest

/-- Runs of printable bytes are no longer than `c`. -/
def RunsFit (c : ℕ) (stream : Bytes) : Prop :=
  ∀ run, run <:+: stream → (∀ ch ∈ run, isprint ch = true) → run.length ≤ c

theorem RunsFit.framed {c : ℕ} {stream body : Bytes} (h : RunsFit c stream)
    (hbody : Framed stream body) : body.length ≤ c := by
  obtain ⟨⟨pre, post, rfl⟩, hprint⟩ := hbody
  refine h body ⟨pre ++ [chStx], chEtx :: post, ?_⟩ hprint
  simp only [List.append_assoc, List.cons_append, List.nil_append]

/-- The first broken frame of a stream: well-formed traffic, an STX, the bytes `left` and
a byte that neither goes on with the frame nor ends it. -/
structure Breaks (stream good : Bytes) (bodies : List Bytes) (left : Bytes) (bad : UInt8)
    (rest : Bytes) : Prop where
  traffic : Traffic good bodies
  stream_eq : stream = good ++ (chStx :: left ++ bad :: rest)
  left_print : ∀ ch ∈ left, isprint ch = true
  bad_print : isprint bad = false
  bad_etx : bad ≠ chEtx

/-- Well-formed traffic, with an unfinished frame behind it or not. -/
def Unbroken (stream : Bytes) (bodies : List Bytes) : Prop :=
  ∃ good tail, Traffic good bodies ∧ stream = good ++ tail ∧
    (tail = [] ∨ ∃ left, tail = chStx :: left ∧ ∀ ch ∈ left, isprint ch = true)

/-- A frame in front of a stream. -/
theorem Breaks.frame {stream good left rest : Bytes} {bodies : List Bytes} {bad : UInt8}
    (h : Breaks stream good bodies left bad rest) {g body : Bytes} (hg : chStx ∉ g)
    (hbody : ∀ ch ∈ body, isprint ch = true) :
    Breaks (g ++ (chStx :: body ++ chEtx :: stream)) (g ++ (chStx :: body ++ chEtx :: good))
      (body :: bodies) left bad rest := by
  refine ⟨.frame hg hbody h.traffic, ?_, h.left_print, h.bad_print, h.bad_etx⟩
  simp only [h.stream_eq, List.append_assoc, List.cons_append]

theorem Unbroken.frame {stream : Bytes} {bodies : List Bytes} (h : Unbroken stream bodies)
    {g body : Bytes} (hg : chStx ∉ g) (hbody : ∀ ch ∈ body, isprint ch = true) :
    Unbroken (g ++ (chStx :: body ++ chEtx :: stream)) (body :: bodies) := by
  obtain ⟨good, tail, htraffic, rfl, htail⟩ := h
  refine ⟨_, tail, .frame hg hbody htraffic, ?_, htail⟩
  simp only [List.append_assoc, List.cons_append]

/-- The printable bytes that a stream starts with. -/
theorem exists_print_run (stream : Bytes) :
    ∃ left rest, stream = left ++ rest ∧ (∀ ch ∈ left, isprint ch = true) ∧
      ∀ ch ∈ rest.head?, isprint ch = false := by
  refine ⟨stream.takeWhile isprint, stream.dropWhile isprint,
    List.takeWhile_append_dropWhile.symm, fun ch hch => List.mem_takeWhile_imp hch, ?_⟩
  intro ch hch
  cases hrest : stream.dropWhile isprint with
  | nil =>
    rw [hrest] at hch
    cases hch
  | cons bad rest =>
    have hhead := List.head_dropWhile_not isprint (l := stream) (by rw [hrest]; nofun)
    simp only [hrest, List.head_cons] at hhead
    rw [hrest] at hch
    cases hch
    exact hhead

/-- Every stream is unbroken or has a first broken frame. -/
theorem unbroken_or_breaks (stream : Bytes) :
    ∃ bodies, Unbroken stream bodies ∨ ∃ good left bad rest, Breaks stream good bodies left bad rest := by
  induction hn : stream.length using Nat.strong_induction_on generalizing stream with
  | _ n ih =>
    subst hn
    by_cases hstx : chStx ∈ stream
    · obtain ⟨g, tail, rfl, hg⟩ := List.eq_append_cons_of_mem hstx
      obtain ⟨left, tail, rfl, hleft, hhead⟩ := exists_print_run tail
      cases tail with
      | nil => exact ⟨[], .inl ⟨g, _, .gap hg, rfl, .inr ⟨_, rfl, by rwa [List.append_nil]⟩⟩⟩
      | cons bad rest =>
        by_cases hetx : bad = chEtx
        · subst hetx
          obtain ⟨bodies, hb⟩ := ih rest.length (by
            simp only [List.length_append, List.length_cons]
            omega) rest rfl
          rcases hb with hb | ⟨good, left', bad, rest', hb⟩
          · exact ⟨left :: bodies, .inl (hb.frame hg hleft)⟩
          · exact ⟨left :: bodies, .inr ⟨_, left', bad, rest', hb.frame hg hleft⟩⟩
        · exact ⟨[], .inr ⟨g, left, bad, rest, .gap hg, rfl, hleft, hhead bad rfl, hetx⟩⟩
    · exact ⟨[], .inl ⟨stream, [], .gap hstx, (List.append_nil _).symm, .inl rfl⟩⟩

/-- An unbroken stream hands over its frames, and nothing outgrows its message. -/
theorem Unbroken.feed {stream : Bytes} {bodies : List Bytes} (h : Unbroken stream bodies) (c : ℕ)
    (hruns : RunsFit c stream) (xs : List (UInt8 × Bool)) (hxs : xs.map Prod.fst = stream) :
    ∃ s, demoFeed c demoScanStart xs = (bodies, some s) := by
  obtain ⟨good, tail, htraffic, rfl, htail⟩ := h
  have hfit : ∀ body ∈ bodies, body.length ≤ c := fun body hmem =>
    hruns.framed ((htraffic.framed body hmem).append_right tail)
  obtain ⟨gs, ts, rfl, hgs, hts⟩ := List.map_eq_append_iff.mp hxs
  rw [htraffic.feed c hfit gs ts hgs]
  rcases htail with rfl | ⟨left, rfl, hleft⟩
  · rw [List.map_eq_nil_iff.mp hts, demoFeed, List.append_nil]
    exact ⟨_, rfl⟩
  · obtain ⟨⟨_, first⟩, ls, rfl, rfl, hls⟩ := List.map_eq_cons_iff.mp hts
    have hlen : ([] : Bytes).length+ls.length ≤ c := by
      rw [List.length_nil, Nat.zero_add, ← List.length_map Prod.fst, hls]
      exact hruns left ⟨good ++ [chStx], [], by simp⟩ hleft
    have hbody := demoFeed_body c [] ls [] (hls ▸ hleft) hlen
    rw [List.append_nil] at hbody
    rw [demoFeed_stx, hbody, demoFeed, List.append_nil]
    exact ⟨_, rfl⟩

theorem Breaks.split {stream good left rest : Bytes} {bodies : List Bytes} {bad : UInt8}
    (h : Breaks stream good bodies left bad rest) :
    stream = good ++ (chStx :: left ++ [bad]) ++ rest := by
  simp only [h.stream_eq, List.append_assoc, List.cons_append, List.nil_append]

/-- The broken frame leaves its bytes in the message. -/
theorem Breaks.feed {stream good left rest : Bytes} {bodies : List Bytes} {bad : UInt8}
    (h : Breaks stream good bodies left bad rest) (c : ℕ) (hruns : RunsFit c stream)
    (xs ys : List (UInt8 × Bool)) (hxs : xs.map Prod.fst = good ++ (chStx :: left ++ [bad])) :
    demoFeed c demoScanStart (xs ++ ys) =
      (bodies ++ (demoFeed c ⟨.recovery, left⟩ ys).1, (demoFeed c ⟨.recovery, left⟩ ys).2) := by
  obtain ⟨htraffic, rfl, hleft, hbad, hetx⟩ := h
  have hfit : ∀ body ∈ bodies, body.length ≤ c := fun body hmem =>
    hruns.framed ((htraffic.framed body hmem).append_right _)
  obtain ⟨gs, tail, rfl, hgs, htail⟩ := List.map_eq_append_iff.mp hxs
  obtain ⟨first, ls, mark, _, rfl, hls, hnil⟩ := marked_frame htail
  obtain rfl := List.map_eq_nil_iff.mp hnil
  have hlen : left.length ≤ c := hruns left ⟨good ++ [chStx], bad :: rest, by simp⟩ hleft
  have hlen' : ([] : Bytes).length+ls.length ≤ c := by
    rwa [List.length_nil, Nat.zero_add, ← List.length_map Prod.fst, hls]
  have hnext : demoNext ⟨.body, left⟩ (bad, mark) = (⟨.recovery, left⟩, []) := by
    simp only [demoNext, hbad, Bool.false_eq_true, if_false, if_neg hetx]
  rw [List.append_assoc, htraffic.feed c hfit gs _ hgs, List.cons_append, demoFeed_stx,
    List.append_assoc, demoFeed_body c [] ls _ (hls ▸ hleft) hlen', hls, List.nil_append,
    List.singleton_append, demoFeed_cons c _ _ _ (by rw [hnext]; exact hlen), hnext,
    List.nil_append]

/-- In blocks of one byte no frame is found after a broken one. -/
theorem demoFeed_recovery_singles (c : ℕ) (t b : Bytes) (ys : List (UInt8 × Bool)) :
    demoFeed c ⟨.recovery, t⟩ (b.map (fun ch => (ch, true)) ++ ys) =
      demoFeed c ⟨.recovery, if b = [] then t else []⟩ ys := by
  induction b generalizing t with
  | nil => rfl
  | cons ch b ih =>
    have hnext : demoNext ⟨.recovery, t⟩ (ch, true) = (⟨.recovery, []⟩, []) := by
      simp only [demoNext, Bool.true_eq_false, and_false, if_false, if_true]
    rw [List.map_cons, List.cons_append, demoFeed_cons _ _ _ _ (by rw [hnext]; exact Nat.zero_le c),
      hnext, List.nil_append, ih, if_neg (List.cons_ne_nil ch b), ite_self]

/-- A frame inside a block is found, and its body comes behind what is in the message, or the
two are too much for it. -/
theorem demoFeed_recovery_frame (c : ℕ) (t body : Bytes) (ys : List (UInt8 × Bool))
    (hbody : ∀ ch ∈ body, isprint ch = true) (ht : t.length ≤ c) :
    (demoFeed c ⟨.recovery, t⟩ (markBlock (chStx :: body ++ [chEtx]) ++ ys)).2 = none ∨
      (demoFeed c ⟨.recovery, t⟩ (markBlock (chStx :: body ++ [chEtx]) ++ ys)).1 =
        (t ++ body) :: (demoFeed c demoScanStart ys).1 := by
  obtain ⟨first, bs, last, _, hmark, hbs, hnil⟩ := marked_frame (markBlock_fst (chStx :: body ++ [chEtx]))
  obtain rfl := List.map_eq_nil_iff.mp hnil
  have hfirst : first = false := by
    have hne : (body ++ [chEtx]).isEmpty = false := by cases body <;> rfl
    rw [List.cons_append, markBlock, hne] at hmark
    exact (congrArg Prod.snd (List.cons.inj hmark).1).symm
  have hnext : demoNext ⟨.recovery, t⟩ (chStx, first) = (⟨.body, t⟩, []) := by
    simp only [demoNext, hfirst, and_self, if_true]
  rw [hmark, List.cons_append, demoFeed_cons _ _ _ _ (by rw [hnext]; exact ht), hnext,
    List.nil_append, List.append_assoc, List.singleton_append]
  rcases Nat.lt_or_ge c (t.length+bs.length) with hlt | hle
  · exact .inl (demoFeed_body_over c t bs _ (hbs ▸ hbody) ht hlt)
  · rw [demoFeed_frame c t bs ys last (hbs ▸ hbody) hle, hbs]
    exact .inr rfl

/-- The bytes that a parser in recovery puts into its message from the rest of a block without a
whole frame, or a parser inside of a frame. -/
def salvaged : Bool → Bytes → Bytes
  | _, [] => []
  | false, ch :: rest => salvaged (ch = chStx) rest
  | true, ch :: rest => if isprint ch then ch :: salvaged true rest else salvaged false rest

/-- Behind a broken frame with the bytes `left` there is no whole frame, and what a parser in
recovery puts into one message, with `left` or after a cut without it, is at most `c` bytes. -/
structure Abandoned (c : ℕ) (left rest : Bytes) : Prop where
  noFrame : ∀ body, ¬Framed rest body
  first : left.length+(salvaged false rest).length ≤ c
  later : ∀ pre post, rest = pre ++ post → (salvaged false post).length ≤ c

theorem salvaged_length_le (inside : Bool) (rest : Bytes) :
    (salvaged inside rest).length ≤ rest.length := by
  induction rest generalizing inside with
  | nil => cases inside <;> exact le_rfl
  | cons ch rest ih =>
    cases inside with
    | false => exact (ih _).trans (Nat.le_succ _)
    | true =>
      rw [salvaged]
      split_ifs
      · exact Nat.succ_le_succ (ih true)
      · exact (ih false).trans (Nat.le_succ _)

/-- Few bytes without a frame in them. -/
theorem Abandoned.of_length {c : ℕ} {left rest : Bytes} (hnone : ∀ body, ¬Framed rest body)
    (hlen : left.length+rest.length ≤ c) : Abandoned c left rest where
  noFrame := hnone
  first := (Nat.add_le_add_left (salvaged_length_le false rest) _).trans hlen
  later pre post hrest := by
    have hpost := salvaged_length_le false post
    rw [hrest, List.length_append] at hlen
    omega

/-- The same behind the STX of another frame. -/
structure AbandonedBody (c : ℕ) (text rest : Bytes) : Prop where
  noEnd : ∀ body post, rest = body ++ chEtx :: post → ¬∀ ch ∈ body, isprint ch = true
  noFrame : ∀ body, ¬Framed rest body
  first : text.length+(salvaged true rest).length ≤ c
  later : ∀ pre post, rest = pre ++ post → (salvaged false post).length ≤ c

theorem Abandoned.stx {c : ℕ} {left rest : Bytes} (h : Abandoned c left (chStx :: rest)) :
    AbandonedBody c left rest where
  noEnd body post hrest hbody := h.noFrame body ⟨⟨[], post, by rw [hrest]; rfl⟩, hbody⟩
  noFrame body hbody := h.noFrame body (hbody.append_left [chStx])
  first := h.first
  later pre post hrest := h.later (chStx :: pre) post (by rw [hrest]; rfl)

theorem Abandoned.skip {c : ℕ} {left rest : Bytes} {ch : UInt8} (h : Abandoned c left (ch :: rest))
    (hch : ch ≠ chStx) : Abandoned c left rest where
  noFrame body hbody := h.noFrame body (hbody.append_left [ch])
  first := by
    have hfirst := h.first
    rwa [salvaged, decide_eq_false hch] at hfirst
  later pre post hrest := h.later (ch :: pre) post (by rw [hrest]; rfl)

/-- A cut leaves the message empty. -/
theorem Abandoned.cut {c : ℕ} {left rest : Bytes} {ch : UInt8} (h : Abandoned c left (ch :: rest)) :
    Abandoned c [] rest where
  noFrame body hbody := h.noFrame body (hbody.append_left [ch])
  first := by
    rw [List.length_nil, Nat.zero_add]
    exact h.later [ch] rest rfl
  later pre post hrest := h.later (ch :: pre) post (by rw [hrest]; rfl)

theorem AbandonedBody.print {c : ℕ} {text rest : Bytes} {ch : UInt8}
    (h : AbandonedBody c text (ch :: rest)) (hch : isprint ch = true) :
    AbandonedBody c (text ++ [ch]) rest where
  noEnd body post hrest hbody := h.noEnd (ch :: body) post (by rw [hrest]; rfl)
    (List.forall_mem_cons.mpr ⟨hch, hbody⟩)
  noFrame body hbody := h.noFrame body (hbody.append_left [ch])
  first := by
    have hfirst := h.first
    rw [salvaged, if_pos hch, List.length_cons] at hfirst
    rw [List.length_append, List.length_singleton]
    omega
  later pre post hrest := h.later (ch :: pre) post (by rw [hrest]; rfl)

theorem AbandonedBody.bad {c : ℕ} {text rest : Bytes} {ch : UInt8}
    (h : AbandonedBody c text (ch :: rest)) (hch : ¬isprint ch = true) : Abandoned c text rest where
  noFrame body hbody := h.noFrame body (hbody.append_left [ch])
  first := by
    have hfirst := h.first
    rwa [salvaged, if_neg hch] at hfirst
  later pre post hrest := h.later (ch :: pre) post (by rw [hrest]; rfl)

/-- Nothing is handed over, and nothing outgrows its message, however the rest is cut. -/
theorem demoFeed_abandoned (c : ℕ) (t : Bytes) (ys : List (UInt8 × Bool)) :
    (Abandoned c t (ys.map Prod.fst) → ∃ s, demoFeed c ⟨.recovery, t⟩ ys = ([], some s)) ∧
    (AbandonedBody c t (ys.map Prod.fst) → ∃ s, demoFeed c ⟨.body, t⟩ ys = ([], some s)) := by
  induction ys generalizing t with
  | nil => exact ⟨fun _ => ⟨_, rfl⟩, fun _ => ⟨_, rfl⟩⟩
  | cons x ys ih =>
    obtain ⟨ch, last⟩ := x
    rw [List.map_cons]
    constructor
    · intro h
      have ht : t.length ≤ c := Nat.le_of_add_right_le h.first
      by_cases hstx : ch = chStx ∧ last = false
      · obtain ⟨rfl, rfl⟩ := hstx
        rw [demoFeed_cons c ⟨.recovery, t⟩ _ _ (by exact ht)]
        exact (ih t).2 h.stx
      · have hnext : demoNext ⟨.recovery, t⟩ (ch, last) = (⟨.recovery, if last then [] else t⟩, []) := by
          simp only [demoNext, if_neg hstx]
        have hrest : Abandoned c (if last then [] else t) (ys.map Prod.fst) := by
          cases last with
          | true => exact h.cut
          | false => exact h.skip fun hch => hstx ⟨hch, rfl⟩
        rw [demoFeed_cons c _ _ _ (by rw [hnext]; exact Nat.le_of_add_right_le hrest.first), hnext,
          List.nil_append]
        exact (ih _).1 hrest
    · intro h
      by_cases hprint : isprint ch = true
      · have hnext : demoNext ⟨.body, t⟩ (ch, last) = (⟨.body, t ++ [ch]⟩, []) := by
          simp only [demoNext, if_pos hprint]
        have hrest := h.print hprint
        rw [demoFeed_cons c _ _ _ (by rw [hnext]; exact Nat.le_of_add_right_le hrest.first), hnext,
          List.nil_append]
        exact (ih _).2 hrest
      · have hetx : ch ≠ chEtx := by
          rintro rfl
          exact h.noEnd [] _ rfl nofun
        have hnext : demoNext ⟨.body, t⟩ (ch, last) = (⟨.recovery, t⟩, []) := by
          simp only [demoNext, if_neg hprint, if_neg hetx]
        have hrest := h.bad hprint
        rw [demoFeed_cons c _ _ _ (by rw [hnext]; exact Nat.le_of_add_right_le hrest.first), hnext,
          List.nil_append]
        exact (ih _).1 hrest

/-- In one block the rest outgrows its message as soon as there is too much to be salvaged. -/
theorem demoFeed_block_over (c : ℕ) (t d : Bytes) (ht : t.length ≤ c)
    (hnone : ∀ body, ¬Framed d body) :
    (c < t.length+(salvaged false d).length → (demoFeed c ⟨.recovery, t⟩ (markBlock d)).2 = none) ∧
    ((∀ body post, d = body ++ chEtx :: post → ¬∀ ch ∈ body, isprint ch = true) →
      c < t.length+(salvaged true d).length → (demoFeed c ⟨.body, t⟩ (markBlock d)).2 = none) := by
  induction d generalizing t with
  | nil =>
    refine ⟨fun hover => ?_, fun _ hover => ?_⟩
    · exact absurd ht (Nat.not_le.mpr hover)
    · exact absurd ht (Nat.not_le.mpr hover)
  | cons ch d ih =>
    have hnone' : ∀ body, ¬Framed d body := fun body hbody => hnone body (hbody.append_left [ch])
    rw [markBlock]
    constructor
    · intro hover
      by_cases hstx : ch = chStx ∧ d.isEmpty = false
      · obtain ⟨rfl, hd⟩ := hstx
        rw [hd, demoFeed_cons c ⟨.recovery, t⟩ _ _ (by exact ht)]
        refine (ih t ht hnone').2 (fun body post hrest hbody => ?_) hover
        exact hnone body ⟨⟨[], post, by rw [hrest]; rfl⟩, hbody⟩
      · have hnext : demoNext ⟨.recovery, t⟩ (ch, d.isEmpty) =
            (⟨.recovery, if d.isEmpty then [] else t⟩, []) := by
          simp only [demoNext, if_neg hstx]
        cases d with
        | nil =>
          rw [salvaged, salvaged] at hover
          exact absurd ht (Nat.not_le.mpr hover)
        | cons ch' d =>
          have hch : ch ≠ chStx := fun hch => hstx ⟨hch, rfl⟩
          rw [demoFeed_cons c _ _ _ (by rw [hnext]; exact ht), hnext]
          rw [salvaged, decide_eq_false hch] at hover
          exact (ih t ht hnone').1 hover
    · intro hend hover
      by_cases hprint : isprint ch = true
      · have hnext : demoNext ⟨.body, t⟩ (ch, d.isEmpty) = (⟨.body, t ++ [ch]⟩, []) := by
          simp only [demoNext, if_pos hprint]
        rw [demoFeed, hnext]
        split_ifs with hlen
        · refine (ih (t ++ [ch]) hlen hnone').2 (fun body post hrest hbody => ?_) ?_
          · exact hend (ch :: body) post (by rw [hrest]; rfl) (List.forall_mem_cons.mpr ⟨hprint, hbody⟩)
          · rw [salvaged, if_pos hprint, List.length_cons] at hover
            rw [List.length_append, List.length_singleton]
            omega
        · rfl
      · have hetx : ch ≠ chEtx := by
          rintro rfl
          exact hend [] d rfl nofun
        have hnext : demoNext ⟨.body, t⟩ (ch, d.isEmpty) = (⟨.recovery, t⟩, []) := by
          simp only [demoNext, if_neg hprint, if_neg hetx]
        rw [demoFeed_cons c _ _ _ (by rw [hnext]; exact ht), hnext]
        rw [salvaged, if_neg hprint] at hover
        exact (ih t ht hnone').1 hover

/-- The blocks are a stream, cut where nothing is empty. -/
structure Cuts (blocks : List Bytes) (stream : Bytes) : Prop where
  flatten_eq : blocks.flatten = stream
  ne_nil : ∀ b ∈ blocks, b ≠ []

theorem singles_cuts (stream : Bytes) : Cuts (singles stream) stream := by
  constructor
  · induction stream with
    | nil => rfl
    | cons ch stream ih => exact congrArg (List.cons ch) ih
  · intro b hb
    obtain ⟨ch, -, rfl⟩ := List.mem_map.mp hb
    exact List.cons_ne_nil _ _

theorem Cuts.append {bs bs' : List Bytes} {s s' : Bytes} (h : Cuts bs s) (h' : Cuts bs' s') :
    Cuts (bs ++ bs') (s ++ s') := by
  refine ⟨by rw [List.flatten_append, h.flatten_eq, h'.flatten_eq], fun b hb => ?_⟩
  rcases List.mem_append.mp hb with hb | hb
  · exact h.ne_nil b hb
  · exact h'.ne_nil b hb

/-- The bodies handed over for a stream cut into blocks, if nothing outgrows its message. -/
def scanBodies (c : ℕ) (blocks : List Bytes) : Option (List Bytes) :=
  (demoFeed c demoScanStart (markBlocks blocks)).2.map fun _ =>
    (demoFeed c demoScanStart (markBlocks blocks)).1

/-- However a stream is cut, its first frames are handed over, and nothing else if the rest is
abandoned. -/
theorem scanBodies_eq (c : ℕ) (stream : Bytes) (hruns : RunsFit c stream)
    (hlost : ∀ good bodies left bad rest, Breaks stream good bodies left bad rest →
      Abandoned c left rest) :
    ∃ bodies, (∀ body ∈ bodies, Framed stream body) ∧
      ∀ blocks, Cuts blocks stream → scanBodies c blocks = some bodies := by
  obtain ⟨bodies, h | ⟨good, left, bad, rest, h⟩⟩ := unbroken_or_breaks stream
  · refine ⟨bodies, fun body hmem => ?_, fun blocks hcut => ?_⟩
    · obtain ⟨good, tail, htraffic, rfl, -⟩ := h
      exact (htraffic.framed body hmem).append_right tail
    · obtain ⟨s, hs⟩ := h.feed c hruns (markBlocks blocks) (by rw [markBlocks_fst, hcut.flatten_eq])
      rw [scanBodies, hs]
      rfl
  · refine ⟨bodies, fun body hmem => ?_, fun blocks hcut => ?_⟩
    · rw [h.stream_eq]
      exact (h.traffic.framed body hmem).append_right _
    · have hmarks : (markBlocks blocks).map Prod.fst = good ++ (chStx :: left ++ [bad]) ++ rest := by
        rw [markBlocks_fst, hcut.flatten_eq, h.split]
      obtain ⟨xs, ys, hsplit, hxs, hys⟩ := List.map_eq_append_iff.mp hmarks
      obtain ⟨s, hs⟩ := (demoFeed_abandoned c left ys).1 (hys ▸ hlost _ _ _ _ _ h)
      rw [scanBodies, hsplit, h.feed c hruns xs ys hxs, hs, List.append_nil]
      rfl

section breaks

variable {stream good left rest : Bytes} {bodies : List Bytes} {bad : UInt8}

theorem Breaks.left_le (h : Breaks stream good bodies left bad rest) {c : ℕ}
    (hruns : RunsFit c stream) : left.length ≤ c :=
  hruns left ⟨good ++ [chStx], bad :: rest, by rw [h.stream_eq]; simp⟩ h.left_print

/-- The stream with everything up to the broken frame, and a first part of the rest, in blocks
of one byte. -/
theorem Breaks.scan_cut (h : Breaks stream good bodies left bad rest) (c : ℕ)
    (hruns : RunsFit c stream) (pre : Bytes) (blocks : List Bytes) :
    scanBodies c (singles (good ++ (chStx :: left ++ [bad])) ++ (singles pre ++ blocks)) =
      (demoFeed c ⟨.recovery, if pre = [] then left else []⟩ (markBlocks blocks)).2.map fun _ =>
        bodies ++ (demoFeed c ⟨.recovery, if pre = [] then left else []⟩ (markBlocks blocks)).1 := by
  have hmarks : (markBlocks (singles (good ++ (chStx :: left ++ [bad])))).map Prod.fst =
      good ++ (chStx :: left ++ [bad]) := by rw [markBlocks_fst, (singles_cuts _).flatten_eq]
  rw [scanBodies, markBlocks_append, h.feed c hruns _ _ hmarks, markBlocks_append,
    markBlocks_singles pre, demoFeed_recovery_singles]

theorem Breaks.cuts (h : Breaks stream good bodies left bad rest) {pre post : Bytes}
    (hrest : rest = pre ++ post) {blocks : List Bytes} (hblocks : Cuts blocks post) :
    Cuts (singles (good ++ (chStx :: left ++ [bad])) ++ (singles pre ++ blocks)) stream := by
  rw [h.split, hrest]
  exact (singles_cuts _).append ((singles_cuts _).append hblocks)

/-- In blocks of one byte nothing follows the broken frame. -/
theorem Breaks.scan_singles (h : Breaks stream good bodies left bad rest) (c : ℕ)
    (hruns : RunsFit c stream) :
    scanBodies c (singles (good ++ (chStx :: left ++ [bad])) ++ (singles rest ++ [])) = some bodies := by
  rw [h.scan_cut c hruns rest [], markBlocks, List.flatMap_nil, demoFeed, List.append_nil]
  rfl

/-- What all cuttings agree on is that the rest is abandoned. -/
theorem Breaks.abandoned (h : Breaks stream good bodies left bad rest) (c : ℕ)
    (hruns : RunsFit c stream)
    (hall : ∀ blocks blocks', Cuts blocks stream → Cuts blocks' stream →
      ∃ out, scanBodies c blocks = some out ∧ scanBodies c blocks' = some out) :
    Abandoned c left rest := by
  have hagree (pre post : Bytes) (hrest : rest = pre ++ post) (blocks : List Bytes)
      (hblocks : Cuts blocks post) :
      scanBodies c (singles (good ++ (chStx :: left ++ [bad])) ++ (singles pre ++ blocks)) =
        some bodies := by
    obtain ⟨out, hout, hout'⟩ := hall _ _ (h.cuts hrest hblocks)
      (h.cuts (List.append_nil rest).symm (singles_cuts []))
    rw [hout, ← hout']
    exact h.scan_singles c hruns
  have hleft := h.left_le hruns
  have htext (pre : Bytes) : (if pre = [] then left else []).length ≤ c := by
    split_ifs
    · exact hleft
    · exact Nat.zero_le c
  have hnone : ∀ body, ¬Framed rest body := by
    rintro body ⟨⟨pre, post, hrest⟩, hbody⟩
    have hcut : Cuts ([chStx :: body ++ [chEtx]] ++ singles post) (chStx :: body ++ chEtx :: post) := by
      have hframe : Cuts [chStx :: body ++ [chEtx]] (chStx :: body ++ [chEtx]) :=
        ⟨List.flatten_singleton, by simp⟩
      have happend := hframe.append (singles_cuts post)
      rwa [List.append_assoc, List.singleton_append] at happend
    have hscan := hagree pre _ hrest _ hcut
    rw [h.scan_cut c hruns pre, markBlocks_append,
      show markBlocks [chStx :: body ++ [chEtx]] = markBlock (chStx :: body ++ [chEtx]) from
        List.append_nil _, Option.map_eq_some_iff] at hscan
    obtain ⟨t, hsome, hout⟩ := hscan
    rcases demoFeed_recovery_frame c _ body (markBlocks (singles post)) hbody (htext pre) with
      hover | hfound
    · cases hover.symm.trans hsome
    · rw [hfound] at hout
      have hlength := congrArg List.length hout
      rw [List.length_append, List.length_cons] at hlength
      omega
  have hfits (pre post : Bytes) (hrest : rest = pre ++ post) :
      (if pre = [] then left else []).length+(salvaged false post).length ≤ c := by
    by_contra hover
    have hne : post ≠ [] := by
      rintro rfl
      exact hover (htext pre)
    have hscan := hagree pre post hrest [post] ⟨List.flatten_singleton, by simpa using hne⟩
    have hnone' : ∀ body, ¬Framed post body := fun body hbody =>
      hnone body (hrest ▸ hbody.append_left pre)
    rw [h.scan_cut c hruns pre, show markBlocks [post] = markBlock post from List.append_nil _,
      (demoFeed_block_over c _ post (htext pre) hnone').1 (Nat.not_le.mp hover)] at hscan
    cases hscan
  refine ⟨hnone, hfits [] rest rfl, fun pre post hrest => ?_⟩
  exact (Nat.le_add_left _ _).trans (hfits pre post hrest)

end breaks

end CHttp
