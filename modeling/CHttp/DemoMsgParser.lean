import CHttp.DemoMsgScan

/-! The demo parser does with a stream what the automaton does, and what follows for the
traffic it is fed. -/
namespace CHttp

/-- The body of a message is a text. -/
def DemoMsg.Says (msg : DemoMsg) (text : Bytes) : Prop := msg.body.HoldsText demoBodyCapacity text

def DemoPhase.state : DemoPhase → DemoParserState
  | .idle => .idle
  | .body => .body
  | .recovery => .errorRecovery

/-- The parser is in the automaton's state. -/
structure DemoMsgParser.Reads (parser : DemoMsgParser) (s : DemoScan) : Prop where
  state : parser.mState = s.phase.state
  message : ∃ msg, parser.mCurrentMessagePtr = some msg ∧ msg.Says s.text

/-- The same between two blocks, where a new parser has no message yet. -/
structure DemoMsgParser.Ready (parser : DemoMsgParser) (s : DemoScan) : Prop where
  state : parser.mState = s.phase.state
  message : ∃ msg, demoCurrentMessage parser = .ok msg ∧ msg.Says s.text

theorem DemoMsgParser.Reads.ready {parser : DemoMsgParser} {s : DemoScan} (h : parser.Reads s) :
    parser.Ready s := by
  obtain ⟨hstate, msg, hmsg, hsays⟩ := h
  exact ⟨hstate, msg, by rw [demoCurrentMessage, hmsg], hsays⟩

theorem demoMsgNew_says : ∃ msg, demoMsgNew = .ok msg ∧ msg.Says [] := by
  obtain ⟨iob, hnew, hiob⟩ := iobufferInit_holds demoBodyCapacity (by decide)
  exact ⟨⟨iob⟩, by simp only [demoMsgNew, hnew, ok_bind], hiob, fun h => absurd rfl h⟩

theorem demoMsgParserNew_ready : demoMsgParserNew.Ready demoScanStart :=
  ⟨rfl, demoMsgNew_says⟩

/-- Buffers whose data are the blocks. -/
def Carries (iobs : List IOBuffer) (blocks : List Bytes) : Prop :=
  List.Forall₂ (fun iob b => ∃ c, iob.Queues c (b.map some)) iobs blocks

section follows

variable {σ : Type} (cb : σ → DemoMsg → ℤ → σ)

/-- The callback's argument after some messages. -/
def demoEmit (arg : σ) (msgs : List DemoMsg) : σ := msgs.foldl (fun arg msg => cb arg msg 0) arg

/-- A call does what the automaton does: it hands over the same bodies, and then returns a
result for the automaton's state, or fails where the automaton has none. -/
def Follows {α : Type} (arg : σ) (r : Res α × σ) (a : List Bytes × Option DemoScan)
    (rel : α → DemoScan → Prop) : Prop :=
  ∃ msgs, List.Forall₂ DemoMsg.Says msgs a.1 ∧ r.2 = demoEmit cb arg msgs ∧
    match a.2 with
    | none => r.1 = .error (.assertion "mem_len >= len")
    | some t => ∃ x, r.1 = .ok x ∧ rel x t

variable {cb}

theorem Follows.returns {α : Type} {arg : σ} {x : α} {t : DemoScan} {rel : α → DemoScan → Prop}
    (h : rel x t) : Follows cb arg (.ok x, arg) ([], some t) rel :=
  ⟨[], .nil, rfl, x, rfl, h⟩

theorem Follows.andThen {α β : Type} {arg : σ} {r : Res α × σ} {a : List Bytes × Option DemoScan}
    {rel : α → DemoScan → Prop} {rel' : β → DemoScan → Prop} (h : Follows cb arg r a rel)
    {k : α → σ → Res β × σ} {f : DemoScan → List Bytes × Option DemoScan}
    (hk : ∀ x t arg, rel x t → Follows cb arg (k x arg) (f t) rel') :
    Follows cb arg (andThen r k) (scanThen a f) rel' := by
  obtain ⟨res, arg'⟩ := r
  obtain ⟨out, fin⟩ := a
  obtain ⟨msgs, hmsgs, rfl, hfin⟩ := h
  cases fin with
  | none =>
    obtain rfl : res = _ := hfin
    exact ⟨msgs, hmsgs, rfl, rfl⟩
  | some t =>
    obtain ⟨x, rfl, hx⟩ := hfin
    obtain ⟨msgs', hmsgs', harg, hfin'⟩ := hk x t (demoEmit cb arg msgs) hx
    refine ⟨msgs ++ msgs', List.rel_append hmsgs hmsgs', ?_, hfin'⟩
    exact harg.trans List.foldl_append.symm

theorem Follows.map {α β : Type} {arg : σ} {r : Res α × σ} {a : List Bytes × Option DemoScan}
    {rel : α → DemoScan → Prop} {rel' : β → DemoScan → Prop} (h : Follows cb arg r a rel)
    {g : α → β} (hg : ∀ x t, rel x t → rel' (g x) t) :
    Follows cb arg (CHttp.andThen r fun x arg => (.ok (g x), arg)) a rel' := by
  have hthen : scanThen a (fun t => ([], some t)) = a := by
    obtain ⟨out, fin⟩ := a
    cases fin with
    | none => rfl
    | some t => simp only [scanThen, List.append_nil]
  rw [← hthen]
  exact h.andThen fun x t arg hx => .returns (hg x t hx)

theorem DemoMsg.Says.length_le {msg : DemoMsg} {text : Bytes} (h : msg.Says text) :
    text.length ≤ demoBodyCapacity := by
  have hfits := h.holds.fits
  rwa [List.length_map] at hfits

/-- `case STATE_BODY`. -/
theorem demoParserBody_follows (parser : DemoMsgParser) (t : Bytes) (h : parser.Reads ⟨.body, t⟩)
    (ch : UInt8) (last : Bool) (arg : σ) :
    Follows cb arg (demoParserBody cb parser ch arg)
      (demoFeed demoBodyCapacity ⟨.body, t⟩ [(ch, last)]) DemoMsgParser.Reads := by
  obtain ⟨hstate, msg, hmsg, hsays⟩ := h
  by_cases hprint : isprint ch = true
  · have hnext : demoNext ⟨.body, t⟩ (ch, last) = (⟨.body, t ++ [ch]⟩, []) := by
      simp only [demoNext, if_pos hprint]
    have hlen : (t ++ [ch]).length = t.length+1 := by
      rw [List.length_append, List.length_singleton]
    rcases hsays.length_le.lt_or_eq with hroom | hfull
    · obtain ⟨iob, hpush, hiob⟩ := iobufferCommitPushBack_holdsText msg.body _ t ch hsays hroom
      rw [demoFeed_one _ hnext (hlen.trans_le hroom)]
      simp only [demoParserBody, hmsg, if_pos hprint, demoMsgGetBody, hpush, ok_bind]
      exact .returns ⟨hstate, _, rfl, hiob⟩
    · rw [demoFeed_over _ hnext (by rw [hlen, hfull]; exact Nat.not_succ_le_self _)]
      simp only [demoParserBody, hmsg, if_pos hprint, demoMsgGetBody,
        iobufferCommitPushBack_full msg.body _ t (some ch) hsays hfull, error_bind]
      exact ⟨[], .nil, rfl, rfl⟩
  · by_cases hetx : ch = chEtx
    · have hnext : demoNext ⟨.body, t⟩ (ch, last) = (demoScanStart, [t]) := by
        simp only [demoNext, if_neg hprint, if_pos hetx, demoScanStart]
      obtain ⟨fresh, hnew, hfresh⟩ := demoMsgNew_says
      rw [demoFeed_one _ hnext (Nat.zero_le _)]
      simp only [demoParserBody, hmsg, if_neg hprint, if_pos hetx, hnew, ok_bind]
      exact ⟨[msg], .cons hsays .nil, rfl, _, rfl, rfl, fresh, rfl, hfresh⟩
    · have hnext : demoNext ⟨.body, t⟩ (ch, last) = (⟨.recovery, t⟩, []) := by
        simp only [demoNext, if_neg hprint, if_neg hetx]
      rw [demoFeed_one _ hnext hsays.length_le]
      simp only [demoParserBody, hmsg, if_neg hprint, if_neg hetx]
      exact .returns ⟨rfl, msg, rfl, hsays⟩

/-- `case STATE_ERROR_RECOVERY`. -/
theorem demoParserRecovery_follows (parser : DemoMsgParser) (t : Bytes)
    (h : parser.Reads ⟨.recovery, t⟩) (ch : UInt8) (last : Bool) (arg : σ) :
    Follows cb arg (demoParserRecovery parser last ch, arg)
      (demoFeed demoBodyCapacity ⟨.recovery, t⟩ [(ch, last)]) DemoMsgParser.Reads := by
  obtain ⟨hstate, msg, hmsg, hsays⟩ := h
  by_cases hstx : ch = chStx ∧ last = false
  · have hnext : demoNext ⟨.recovery, t⟩ (ch, last) = (⟨.body, t⟩, []) := by
      simp only [demoNext, if_pos hstx]
    rw [demoFeed_one _ hnext hsays.length_le, demoParserRecovery, if_pos hstx]
    exact .returns ⟨rfl, msg, hmsg, hsays⟩
  · have hnext : demoNext ⟨.recovery, t⟩ (ch, last) = (⟨.recovery, if last then [] else t⟩, []) := by
      simp only [demoNext, if_neg hstx]
    rw [demoParserRecovery, if_neg hstx]
    cases last with
    | false =>
      rw [demoFeed_one _ hnext hsays.length_le]
      exact .returns ⟨hstate, msg, hmsg, hsays⟩
    | true =>
      obtain ⟨fresh, hnew, hfresh⟩ := demoMsgNew_says
      rw [demoFeed_one _ hnext (Nat.zero_le _), if_pos rfl, hnew, ok_bind]
      exact .returns ⟨hstate, fresh, rfl, hfresh⟩

/-- One turn of the loop. -/
theorem demoParserChar_follows (parser : DemoMsgParser) (s : DemoScan) (h : parser.Reads s)
    (ch : UInt8) (last : Bool) (arg : σ) :
    Follows cb arg (demoParserChar cb parser last ch arg)
      (demoFeed demoBodyCapacity s [(ch, last)]) DemoMsgParser.Reads := by
  obtain ⟨phase, t⟩ := s
  have hstate := h.state
  cases phase with
  | idle =>
    obtain ⟨-, msg, hmsg, hsays⟩ := h
    have hnext : demoNext ⟨.idle, t⟩ (ch, last) = (⟨if ch = chStx then .body else .idle, t⟩, []) := rfl
    rw [demoFeed_one _ hnext hsays.length_le]
    simp only [demoParserChar, hstate, DemoPhase.state]
    refine .returns ⟨?_, msg, hmsg, hsays⟩
    simp only
    split_ifs <;> rfl
  | body =>
    simp only [demoParserChar, hstate, DemoPhase.state]
    exact demoParserBody_follows parser t h ch last arg
  | recovery =>
    simp only [demoParserChar, hstate, DemoPhase.state]
    exact demoParserRecovery_follows parser t h ch last arg

/-- The two reads of a character agree. -/
theorem demoNextChar_queues (iob : IOBuffer) (c charbuf i : ℕ) (ch : UInt8) (d : List Cell)
    (h : iob.Queues c (some ch :: d)) (hptr : charbuf+i = iob.bufferPtr) :
    ∃ iob', demoNextChar charbuf i iob = .ok (ch, iob') ∧ iob'.Queues c d ∧
      iob'.bufferPtr = if d = [] then 0 else iob.bufferPtr+1 := by
  have hcell : iob.mem[iob.bufferPtr]? = some (some ch) := h.cell (j := 0) (Nat.succ_pos _)
  have hread : arrayRead iob.mem iob.bufferPtr = .ok ch := arrayRead_ok _ _ _ hcell
  obtain ⟨iob', hconsume, hq, -⟩ := iobufferConsume_queues iob c 1 (some ch :: d) h (by simp)
  have hmem : iob'.mem = iob.mem ∧ iob'.bufferPtr =
      if iob.bufferRemaining-1 = 0 then 0 else iob.bufferPtr+1 := by
    rw [iobufferConsume, cAssert_bind_eq_ok, cAssert_bind_eq_ok] at hconsume
    obtain rfl := Except.ok.inj hconsume.2.2
    exact ⟨rfl, rfl⟩
  refine ⟨iob', ?_, hq, ?_⟩
  · simp only [demoNextChar, hread, hconsume, ok_bind, hmem.1, hptr, decide_true, cAssert_true]
  · rw [hmem.2, h.remaining, List.length_cons, Nat.add_sub_cancel]
    cases d <;> rfl

/-- The loop does with the rest of a block what the automaton does. -/
theorem demoParserLoop_follows (d : Bytes) (parser : DemoMsgParser) (s : DemoScan)
    (h : parser.Reads s) (iob : IOBuffer) (c charbuf length : ℕ) (hq : iob.Queues c (d.map some))
    (hlen : d.length ≤ length)
    (hptr : if d = [] then iob.bufferPtr = 0 else charbuf+(length-d.length) = iob.bufferPtr)
    (arg : σ) :
    Follows cb arg (demoParserLoop cb charbuf length d.length parser iob arg)
      (demoFeed demoBodyCapacity s (markBlock d))
      fun r t => r.1.Reads t ∧ r.2.Holds c [] := by
  induction d generalizing parser s iob arg with
  | nil => exact .returns ⟨h, hq.holds hptr⟩
  | cons ch d ih =>
    rw [if_neg (List.cons_ne_nil ch d), List.length_cons] at hptr
    rw [List.length_cons] at hlen
    obtain ⟨iob', hchar, hq', hptr'⟩ := demoNextChar_queues iob c charbuf _ ch (d.map some) hq hptr
    have hlast : decide (d.length = 0) = d.isEmpty := by cases d <;> rfl
    have hfeed : demoFeed demoBodyCapacity s (markBlock (ch :: d)) =
        scanThen (demoFeed demoBodyCapacity s [(ch, d.isEmpty)]) fun t =>
          demoFeed demoBodyCapacity t (markBlock d) :=
      demoFeed_append _ s [(ch, d.isEmpty)] (markBlock d)
    rw [hfeed]
    simp only [List.length_cons, demoParserLoop, hchar, hlast]
    refine (demoParserChar_follows parser s h ch d.isEmpty arg).andThen fun parser' t arg' h' => ?_
    refine ih parser' t h' iob' hq' (by omega) ?_ arg'
    simp only [List.map_eq_nil_iff] at hptr'
    split_ifs at hptr' ⊢ with hd
    · exact hptr'
    · omega

theorem demoMsgParserConsume_follows (d : Bytes) (hd : d ≠ []) (parser : DemoMsgParser)
    (s : DemoScan) (h : parser.Ready s) (iob : IOBuffer) (c : ℕ) (hq : iob.Queues c (d.map some))
    (arg : σ) :
    Follows cb arg (demoMsgParserConsume cb parser iob arg)
      (demoFeed demoBodyCapacity s (markBlock d))
      fun r t => r.1.Reads t ∧ r.2.Holds c [] := by
  obtain ⟨hstate, msg, hmsg, hsays⟩ := h
  have hlen : iobufferDataLen iob = d.length := by
    rw [iobufferDataLen, hq.remaining, List.length_map]
  have hpos : d.length ≠ 0 := List.length_eq_zero_iff.not.mpr hd
  have hstart : demoParserStart parser d.length =
      .ok { parser with mCurrentMessagePtr := some msg } := by
    simp only [demoParserStart, hmsg, ok_bind, hpos, ne_eq, not_false_iff, decide_true,
      cAssert_true]
  simp only [demoMsgParserConsume, hlen, hstart, andThen]
  refine demoParserLoop_follows d { parser with mCurrentMessagePtr := some msg } s
    ⟨hstate, msg, rfl, hsays⟩ iob c iob.bufferPtr d.length hq
    le_rfl ?_ arg
  rw [if_neg hd, Nat.sub_self, Nat.add_zero]

/-- Blocks passed in turn are read as the automaton reads the marked stream. -/
theorem demoMsgParserFeed_follows (cb : σ → DemoMsg → ℤ → σ) (iobs : List IOBuffer)
    (blocks : List Bytes) (hb : Carries iobs blocks) (hne : ∀ b ∈ blocks, b ≠ [])
    (parser : DemoMsgParser) (s : DemoScan) (h : parser.Ready s) (arg : σ) :
    Follows cb arg (demoMsgParserFeed cb parser iobs arg)
      (demoFeed demoBodyCapacity s (markBlocks blocks))
      fun r t => r.1.Ready t ∧ r.2.length = iobs.length ∧ ∀ iob ∈ r.2, iobufferEmpty iob = true := by
  induction hb generalizing parser s arg with
  | nil => exact .returns ⟨h, rfl, nofun⟩
  | @cons iob b iobs blocks hiob _ ih =>
    obtain ⟨c, hq⟩ := hiob
    rw [List.forall_mem_cons] at hne
    rw [markBlocks, List.flatMap_cons, demoFeed_append]
    refine (demoMsgParserConsume_follows b hne.1 parser s h iob c hq arg).andThen ?_
    rintro ⟨parser', iob'⟩ t arg' ⟨hreads, hholds⟩
    refine (ih hne.2 parser' t hreads.ready arg').map ?_
    rintro ⟨parser'', iobs'⟩ t' ⟨hready, hlen, hempty⟩
    refine ⟨hready, congrArg (·+1) hlen, List.forall_mem_cons.mpr ⟨?_, hempty⟩⟩
    rw [iobufferEmpty, hholds.remaining]
    rfl

end follows

/-- The frame of a body is its serialization. -/
theorem demoMsgSerialize_holds (msg : DemoMsg) (c : ℕ) (body : Bytes) (h : msg.body.HoldsText c body)
    (hne : body ≠ []) (hz : 0 ∉ body) (hlen : body.length ≤ demoBodyCapacity) :
    ∃ iob, demoMsgSerialize msg = .ok iob ∧ iobufferData iob = (chStx :: body ++ [chEtx]).map some := by
  have hcap : cInt ((iobufferDataLen msg.body : ℤ)+64) = ((body.length+64 : ℕ) : ℤ) := by
    rw [iobufferDataLen, h.holds.remaining, List.length_map]
    exact_mod_cast cInt_natCast (body.length+64) (by rw [demoBodyCapacity] at hlen; omega)
  obtain ⟨fresh, hnew, hfresh⟩ := iobufferInit_holds (body.length+64)
    (by rw [demoBodyCapacity] at hlen; omega)
  obtain ⟨iob, hprint, hiob⟩ := iobufferSprintf_holdsText fresh _ (chStx :: body ++ [chEtx]) hfresh
    (by simp) (by simp)
  refine ⟨iob, ?_, hiob.holds.data⟩
  simp only [demoMsgSerialize, hcap, hnew, ok_bind, h.cstr hne hz, hprint]

theorem demoMsgSerialize_frames {msgs : List DemoMsg} {bodies : List Bytes}
    (hmsgs : List.Forall₂ (fun msg body => ∃ c, msg.body.HoldsText c body) msgs bodies)
    (hne : ∀ body ∈ bodies, body ≠ []) (hlen : ∀ body ∈ bodies, body.length ≤ demoBodyCapacity)
    (hprint : ∀ body ∈ bodies, ∀ ch ∈ body, isprint ch = true) :
    List.Forall₂ (fun msg frame => ∃ iob, demoMsgSerialize msg = .ok iob ∧
      iobufferData iob = frame.map some) msgs (bodies.map fun body => chStx :: body ++ [chEtx]) := by
  induction hmsgs with
  | nil => exact .nil
  | @cons msg body _ _ hmsg _ ih =>
    obtain ⟨c, hmsg⟩ := hmsg
    rw [List.forall_mem_cons] at hne hlen hprint
    have hz : (0 : UInt8) ∉ body := fun hmem => Bool.false_ne_true (hprint.1 0 hmem)
    exact .cons (demoMsgSerialize_holds _ c _ hmsg hne.1 hz hlen.1) (ih hne.2 hlen.2 hprint.2)

theorem demoSays_data {msgs : List DemoMsg} {texts : List Bytes}
    (h : List.Forall₂ DemoMsg.Says msgs texts) :
    msgs.map (fun msg => iobufferData msg.body) = texts.map (List.map some) := by
  induction h with
  | nil => rfl
  | cons hmsg _ ih => rw [List.map_cons, List.map_cons, hmsg.holds.data, ih]

/-- Frames with a gap before the first and one after each. -/
def interleaved (gap : Bytes) : List Bytes → List Bytes → Bytes
  | frame :: frames, g :: gaps => gap ++ (frame ++ interleaved g frames gaps)
  | _, _ => gap

theorem interleaved_traffic (gap : Bytes) (bodies gaps : List Bytes) (hgap : chStx ∉ gap)
    (hgaps : ∀ g ∈ gaps, chStx ∉ g) (hlen : gaps.length = bodies.length)
    (hbodies : ∀ body ∈ bodies, ∀ ch ∈ body, isprint ch = true) :
    Traffic (interleaved gap (bodies.map fun body => chStx :: body ++ [chEtx]) gaps) bodies := by
  induction bodies generalizing gap gaps with
  | nil =>
    rw [List.length_nil, List.length_eq_zero_iff] at hlen
    rw [hlen]
    exact .gap hgap
  | cons body bodies ih =>
    obtain ⟨g, gaps, rfl⟩ := List.exists_cons_of_length_eq_add_one hlen
    rw [List.forall_mem_cons] at hgaps hbodies
    have hrest := ih g gaps hgaps.1 hgaps.2 (Nat.succ.inj hlen) hbodies.2
    have htraffic := Traffic.frame hgap hbodies.1 hrest
    simpa only [List.map_cons, interleaved, List.append_assoc, List.cons_append,
      List.nil_append] using htraffic

theorem isprint_iff (ch : UInt8) : isprint ch = true ↔ 0x20 ≤ ch ∧ ch ≤ 0x7e := by
  rw [isprint, Bool.and_eq_true, decide_eq_true_eq, decide_eq_true_eq]

/-- Serialized messages, with anything but STX around them and cut in any way, reach the
callback one by one. -/
theorem demo_round_trip {σ : Type} (cb : σ → DemoMsg → ℤ → σ) (arg : σ) (msgs : List DemoMsg)
    (bodies : List Bytes)
    (hmsgs : List.Forall₂ (fun msg body => ∃ c, msg.body.HoldsText c body) msgs bodies)
    (hbodies : ∀ body ∈ bodies, 1 ≤ body.length ∧ body.length ≤ 1024 ∧
      ∀ ch ∈ body, 0x20 ≤ ch ∧ ch ≤ 0x7e) :
    ∃ frames, List.Forall₂ (fun msg frame => ∃ iob, demoMsgSerialize msg = .ok iob ∧
        iobufferData iob = frame.map some) msgs frames ∧
      ∀ gap gaps, chStx ∉ gap → (∀ g ∈ gaps, chStx ∉ g) → gaps.length = frames.length →
      ∀ blocks iobs, Cuts blocks (interleaved gap frames gaps) → Carries iobs blocks →
        ∃ delivered parser iobs',
          demoMsgParserFeed cb demoMsgParserNew iobs arg =
            (.ok (parser, iobs'), demoEmit cb arg delivered) ∧
          delivered.map (fun msg => iobufferData msg.body) = bodies.map (List.map some) ∧
          iobs'.length = iobs.length ∧ ∀ iob ∈ iobs', iobufferEmpty iob = true := by
  have hprint : ∀ body ∈ bodies, ∀ ch ∈ body, isprint ch = true := fun body hmem ch hch =>
    (isprint_iff ch).mpr ((hbodies body hmem).2.2 ch hch)
  have hlen : ∀ body ∈ bodies, body.length ≤ demoBodyCapacity := fun body hmem =>
    (hbodies body hmem).2.1
  have hne : ∀ body ∈ bodies, body ≠ [] := fun body hmem =>
    List.length_pos_iff.mp (hbodies body hmem).1
  refine ⟨_, demoMsgSerialize_frames hmsgs hne hlen hprint, ?_⟩
  intro gap gaps hgap hgaps hcount blocks iobs hcut hiobs
  rw [List.length_map] at hcount
  have htraffic := interleaved_traffic gap bodies gaps hgap hgaps hcount hprint
  have hfeed := htraffic.feed demoBodyCapacity hlen (markBlocks blocks) []
    (by rw [markBlocks_fst, hcut.flatten_eq])
  rw [List.append_nil, demoFeed, List.append_nil] at hfeed
  have hrun := demoMsgParserFeed_follows cb iobs blocks hiobs hcut.ne_nil demoMsgParserNew
    demoScanStart demoMsgParserNew_ready arg
  rw [hfeed] at hrun
  obtain ⟨delivered, hsays, harg, ⟨parser, iobs'⟩, hok, -, hcount', hempty⟩ := hrun
  exact ⟨delivered, parser, iobs', Prod.ext hok harg, demoSays_data hsays, hcount', hempty⟩

/-- A buffer that holds a block and no more. -/
def blockBuffer (b : Bytes) : IOBuffer := ⟨b.map some ++ [none], b.length, 0, b.length⟩

theorem blockBuffer_queues (b : Bytes) : (blockBuffer b).Queues b.length (b.map some) := by
  refine ⟨by simp [blockBuffer], rfl, by simp [blockBuffer], ?_⟩
  rw [blockBuffer, iobufferData, List.drop_zero]
  exact List.take_left' (List.length_map some)

theorem blockBuffer_carries (blocks : List Bytes) : Carries (blocks.map blockBuffer) blocks := by
  induction blocks with
  | nil => exact .nil
  | cons b blocks ih => exact .cons ⟨b.length, blockBuffer_queues b⟩ ih

/-- What the callback is given for a stream in these buffers, if the parser returns. -/
def demoDelivered (iobs : List IOBuffer) : Res (List (List Cell)) :=
  let (result, ds) := demoMsgParserFeed
    (fun (ds : List (List Cell)) msg _ => ds ++ [iobufferData msg.body]) demoMsgParserNew iobs []
  result.map fun _ => ds

theorem demoEmit_snoc {α : Type} (f : DemoMsg → α) (ds : List α) (msgs : List DemoMsg) :
    demoEmit (fun ds msg _ => ds ++ [f msg]) ds msgs = ds ++ msgs.map f := by
  induction msgs generalizing ds with
  | nil => exact (List.append_nil ds).symm
  | cons msg msgs ih =>
    rw [demoEmit, List.foldl_cons]
    refine (ih (ds ++ [f msg])).trans ?_
    rw [List.append_assoc, List.map_cons, List.singleton_append]

/-- A frame behind a stray byte, in two blocks. -/
theorem demo_round_trip_hi :
    ∃ delivered parser iobs', demoMsgParserFeed (fun (ds : List DemoMsg) msg _ => ds ++ [msg])
        demoMsgParserNew ([[7, 2, 104], [105, 3]].map blockBuffer) [] =
          (.ok (parser, iobs'), delivered) ∧
      delivered.map (fun msg => iobufferData msg.body) = [[some 104, some 105]] := by
  obtain ⟨iob, -, hiob⟩ := iobufferFromBuf_holdsText [104, 105] (List.cons_ne_nil _ _) (by decide)
  obtain ⟨frames, hframes, hall⟩ := demo_round_trip (fun (ds : List DemoMsg) msg _ => ds ++ [msg]) []
    [⟨iob⟩] [[104, 105]] (.cons ⟨_, hiob⟩ .nil) (by simp)
  obtain ⟨iob', hser', hdata'⟩ := demoMsgSerialize_holds ⟨iob⟩ _ [104, 105] hiob
    (List.cons_ne_nil _ _) (by decide) (by decide)
  cases hframes with
  | @cons _ frame _ frames hframe hnil =>
    cases hnil
    obtain ⟨iob'', hser, hdata⟩ := hframe
    obtain rfl := Except.ok.inj (hser.symm.trans hser')
    obtain rfl : frame = [2, 104, 105, 3] :=
      List.map_injective_iff.mpr (Option.some_injective _) (hdata.symm.trans hdata')
    obtain ⟨delivered, parser, iobs', hrun, hdel, -⟩ := hall [7] [[]] (by decide) (by decide) rfl
      [[7, 2, 104], [105, 3]] _ ⟨rfl, by decide⟩ (blockBuffer_carries _)
    refine ⟨delivered, parser, iobs', ?_, hdel⟩
    rw [hrun, demoEmit_snoc (fun msg => msg), List.nil_append, List.map_id']

theorem demoDelivered_eq (iobs : List IOBuffer) (blocks : List Bytes) (hiobs : Carries iobs blocks)
    (hne : ∀ b ∈ blocks, b ≠ []) :
    demoDelivered iobs = match scanBodies demoBodyCapacity blocks with
      | some bodies => .ok (bodies.map (List.map some))
      | none => .error (.assertion "mem_len >= len") := by
  obtain ⟨msgs, hsays, harg, hfin⟩ := demoMsgParserFeed_follows
    (fun (ds : List (List Cell)) msg _ => ds ++ [iobufferData msg.body]) iobs blocks hiobs hne
    demoMsgParserNew demoScanStart demoMsgParserNew_ready []
  rw [demoEmit_snoc, List.nil_append, demoSays_data hsays] at harg
  rw [demoDelivered, scanBodies]
  cases hscan : (demoFeed demoBodyCapacity demoScanStart (markBlocks blocks)).2 with
  | none =>
    rw [hscan] at hfin
    simp only [hfin, harg]
    rfl
  | some t =>
    rw [hscan] at hfin
    obtain ⟨r, hok, -⟩ := hfin
    simp only [hok, harg]
    rfl

theorem demoDelivered_eq_ok_iff (iobs : List IOBuffer) (blocks : List Bytes)
    (hiobs : Carries iobs blocks) (hne : ∀ b ∈ blocks, b ≠ []) (ds : List (List Cell)) :
    demoDelivered iobs = .ok ds ↔
      ∃ bodies, scanBodies demoBodyCapacity blocks = some bodies ∧ ds = bodies.map (List.map some) := by
  rw [demoDelivered_eq iobs blocks hiobs hne]
  cases scanBodies demoBodyCapacity blocks with
  | none => simp
  | some bodies => simp [eq_comm]

/-- The parser returns and hands over the same bodies for any two cuttings, all of them bodies of
frames of the stream, exactly when everything behind the first broken frame is abandoned. -/
theorem demo_recovery_iff (stream : Bytes) (hruns : RunsFit 1024 stream) :
    (∀ blocks blocks' iobs iobs', Cuts blocks stream → Cuts blocks' stream →
        Carries iobs blocks → Carries iobs' blocks' →
        ∃ ds, demoDelivered iobs = .ok ds ∧ demoDelivered iobs' = .ok ds ∧
          ∀ cells ∈ ds, ∃ body, cells = body.map some ∧ Framed stream body) ↔
      ∀ good bodies left bad rest, Breaks stream good bodies left bad rest →
        Abandoned 1024 left rest := by
  have hinj : Function.Injective (List.map (List.map (some : UInt8 → Cell))) :=
    List.map_injective_iff.mpr (List.map_injective_iff.mpr (Option.some_injective _))
  constructor
  · intro h good bodies left bad rest hbreaks
    refine hbreaks.abandoned 1024 hruns fun blocks blocks' hcut hcut' => ?_
    obtain ⟨ds, hds, hds', -⟩ := h blocks blocks' _ _ hcut hcut' (blockBuffer_carries _)
      (blockBuffer_carries _)
    obtain ⟨out, hout, rfl⟩ := (demoDelivered_eq_ok_iff _ _ (blockBuffer_carries _) hcut.ne_nil
      _).mp hds
    obtain ⟨out', hout', heq⟩ := (demoDelivered_eq_ok_iff _ _ (blockBuffer_carries _) hcut'.ne_nil
      _).mp hds'
    obtain rfl := hinj heq
    exact ⟨out, hout, hout'⟩
  · intro hlost blocks blocks' iobs iobs' hcut hcut' hiobs hiobs'
    obtain ⟨bodies, hframed, hall⟩ := scanBodies_eq 1024 stream hruns hlost
    refine ⟨bodies.map (List.map some), ?_, ?_, fun cells hmem => ?_⟩
    · exact (demoDelivered_eq_ok_iff _ _ hiobs hcut.ne_nil _).mpr ⟨bodies, hall blocks hcut, rfl⟩
    · exact (demoDelivered_eq_ok_iff _ _ hiobs' hcut'.ne_nil _).mpr ⟨bodies, hall blocks' hcut', rfl⟩
    · obtain ⟨body, hbody, rfl⟩ := List.mem_map.mp hmem
      exact ⟨body, rfl, hframed body hbody⟩

/-- A frame that can follow the first broken one has the STX of both before its ETX. -/
theorem Breaks.sublist {stream good left rest : Bytes} {bodies : List Bytes} {bad : UInt8}
    (h : Breaks stream good bodies left bad rest) {body : Bytes} (hbody : Framed rest body) :
    [chStx, chStx, chEtx].Sublist stream := by
  obtain ⟨⟨pre, post, rfl⟩, -⟩ := hbody
  rw [h.stream_eq]
  refine List.Sublist.trans ?_ (List.sublist_append_right good _)
  refine List.Sublist.cons_cons chStx (List.Sublist.trans ?_ (List.sublist_append_right left _))
  refine List.Sublist.cons bad (List.Sublist.trans ?_ (List.sublist_append_right pre _))
  exact List.Sublist.cons_cons chStx (List.singleton_sublist.mpr (by simp))

/-- A frame, then a broken one and one that does not end. -/
theorem demo_recovery_frame_first :
    RunsFit 1024 [2, 97, 3, 2, 98, 1, 2, 99] ∧
      ∀ blocks blocks' iobs iobs', Cuts blocks [2, 97, 3, 2, 98, 1, 2, 99] →
        Cuts blocks' [2, 97, 3, 2, 98, 1, 2, 99] → Carries iobs blocks → Carries iobs' blocks' →
        ∃ ds, demoDelivered iobs = .ok ds ∧ demoDelivered iobs' = .ok ds ∧ ∀ cells ∈ ds,
          ∃ body, cells = body.map some ∧ Framed [2, 97, 3, 2, 98, 1, 2, 99] body := by
  have hruns : RunsFit 1024 [2, 97, 3, 2, 98, 1, 2, 99] := fun run hrun _ =>
    hrun.length_le.trans (by decide)
  refine ⟨hruns, (demo_recovery_iff _ hruns).mpr ?_⟩
  intro good bodies left bad rest hbreaks
  refine .of_length (fun body hbody => absurd (hbreaks.sublist hbody) (by decide)) ?_
  have hlength := congrArg List.length hbreaks.stream_eq
  simp only [List.length_append, List.length_cons, List.length_nil] at hlength
  omega

/-- In one block the bytes of the abandoned frame are delivered with the next one; in blocks
of one byte nothing is. -/
theorem demo_recovery_mixes :
    Cuts [[2, 97, 1, 2, 98, 3]] [2, 97, 1, 2, 98, 3] ∧
      Cuts (singles [2, 97, 1, 2, 98, 3]) [2, 97, 1, 2, 98, 3] ∧
      demoDelivered ([[2, 97, 1, 2, 98, 3]].map blockBuffer) = .ok [[some 97, some 98]] ∧
      demoDelivered ((singles [2, 97, 1, 2, 98, 3]).map blockBuffer) = .ok [] := by
  refine ⟨⟨rfl, by decide⟩, singles_cuts _, ?_, ?_⟩
  · decide +kernel
  · decide +kernel

end CHttp
