import CHttp.MsgStreamWrite

/-! `EchoApp`, a client of a message stream: it reads a message, writes a response, and
reads the next message once the response is written. -/
namespace CHttp

/-- The format `"ServerResponse:[%s]"`. -/
def serverResponse (s : Bytes) : Bytes := ascii "ServerResponse:[" ++ s ++ ascii "]"

def processInputMessage (inputMsg : NewLineMsg) : Res NewLineMsg := do
  let response ← newlineMsgNew
  let p ← iobufferCstr (newlineMsgGetContent inputMsg)
  let content ← iobufferFromCstring (serverResponse p)
  .ok (newlineMsgSetContent response content)

/-- The app with its message stream: how often its `postable_read` is posted, whether
`done_cb` is set, and the errors it was called with. -/
structure EchoWorld where
  world : StreamWorld
  posted : ℕ
  doneCb : Bool
  done : List ℤ
  deriving DecidableEq, Repr

def echoAppRun (m : MsgStream ℕ) (peer : Bytes) : EchoWorld := ⟨StreamWorld.init m peer, 1, true, []⟩

def EchoWorld.invokeDoneCallback (w : EchoWorld) (error : ℤ) : Res EchoWorld :=
  if w.doneCb then .ok { w with doneCb := false, done := w.done ++ [error] }
  else .error .nullPointer

/-- The app numbers its calls. -/
def EchoWorld.msgReadCallback (w : EchoWorld) (msg : Option NewLineMsg) (error : ℤ) :
    Res EchoWorld :=
  if error ≠ 0 then w.invokeDoneCallback error
  else
    match msg with
    | none => .error (.assertion "msg != NULL")
    | some msg => do
      let response ← processInputMessage msg
      let world ← w.world.exec (.write w.world.writes.length response)
      .ok { w with world := world }

/-- The error is ignored. -/
def EchoWorld.msgWriteCallback (w : EchoWorld) : EchoWorld := { w with posted := w.posted+1 }

/-- The app's part, if the stream's last call was one of its callbacks. -/
def EchoWorld.react (w : EchoWorld) : Res EchoWorld :=
  match w.world.call with
  | .readCallback _ msg error => w.msgReadCallback msg error
  | .writeCallback _ _ => .ok w.msgWriteCallback
  | _ => .ok w

inductive EchoEvent where
  | postableRead
  | stream (e : StreamEvent)
  deriving DecidableEq, Repr

/-- All that happens to the stream, apart from the calls of its client, which is the app. -/
def EchoWorld.Enabled (w : EchoWorld) : EchoEvent → Prop
  | .postableRead => w.world.Free ∧ 0 < w.posted
  | .stream e => w.world.Enabled e ∧ e.byClient = false

instance EchoWorld.decidableEnabled (w : EchoWorld) (e : EchoEvent) : Decidable (w.Enabled e) :=
  match e with
  | .postableRead => inferInstanceAs (Decidable (w.world.Free ∧ 0 < w.posted))
  | .stream e => inferInstanceAs (Decidable (w.world.Enabled e ∧ e.byClient = false))

def EchoWorld.exec (w : EchoWorld) : EchoEvent → Res EchoWorld
  | .postableRead => do
    let world ← w.world.exec (.read w.world.reads.length)
    EchoWorld.react { w with world := world, posted := w.posted-1 }
  | .stream e => do
    let world ← w.world.exec e
    EchoWorld.react { w with world := world }

def echoMachine : Machine EchoWorld EchoEvent Fault := ⟨EchoWorld.Enabled, EchoWorld.exec⟩

instance echoMachine.decidableEnabled (w : EchoWorld) (e : EchoEvent) :
    Decidable (echoMachine.enabled w e) :=
  inferInstanceAs (Decidable (w.Enabled e))

/-- `read` and `write` return positive counts or EAGAIN. -/
def EchoEvent.Plain : EchoEvent → Prop
  | .postableRead => True
  | .stream e => e.PlainRead ∧ e.PlainWrite

/-- The line that answers a line. -/
def echoLine (line : Bytes) : Bytes := serverResponse line ++ [10]

/-- The same on the content of a message. -/
def echoCells (msg : NewLineMsg) : List Cell :=
  (ascii "ServerResponse:[").map some ++ iobufferData msg.iob ++ (ascii "]" ++ [10]).map some

theorem NewLineMsg.Says.echoCells {msg : NewLineMsg} {line : Bytes} (h : msg.Says line) :
    echoCells msg = (echoLine line).map some := by
  rw [CHttp.echoCells, h.data, echoLine, serverResponse]
  simp only [List.map_append, List.append_assoc]

theorem serverResponse_length (line : Bytes) : (serverResponse line).length = line.length+17 := by
  simp only [serverResponse, List.length_append]
  rw [show (ascii "ServerResponse:[").length = 16 from rfl, show (ascii "]").length = 1 from rfl]
  omega

theorem zero_not_mem_serverResponse (line : Bytes) (hz : 0 ∉ line) : 0 ∉ serverResponse line := by
  rw [serverResponse, List.mem_append, List.mem_append]
  rintro ((hmem | hmem) | hmem)
  · exact absurd hmem (by decide)
  · exact hz hmem
  · exact absurd hmem (by decide)

/-- The response is made from what the message's pointer reads as a C string. -/
theorem processInputMessage_cstr (msg : NewLineMsg) (text : Bytes)
    (hcstr : iobufferCstr msg.iob = .ok text) (hz : 0 ∉ text)
    (hlen : text.length ≤ iobufferDefaultCapacity) :
    ∃ response, processInputMessage msg = .ok response ∧
      response.iob.HoldsText (2*(serverResponse text).length) (serverResponse text) := by
  have hresponse := serverResponse_length text
  rw [iobufferDefaultCapacity] at hlen
  obtain ⟨fresh, hnew, -⟩ := newlineMsgNew_says
  obtain ⟨content, hfrom, hcontent⟩ := iobufferFromBuf_holdsText (serverResponse text)
    (List.length_pos_iff.mp (by omega)) (by omega)
  refine ⟨newlineMsgSetContent fresh content, ?_, hcontent⟩
  rw [processInputMessage, hnew, ok_bind, newlineMsgGetContent, hcstr, ok_bind, iobufferFromCstring,
    (cstr_eq_self_iff _).mpr (zero_not_mem_serverResponse text hz), hfrom, ok_bind]

theorem processInputMessage_holds (msg : NewLineMsg) (line : Bytes) (h : msg.Says line)
    (hne : line ≠ []) (hz : 0 ∉ line) :
    ∃ response, processInputMessage msg = .ok response ∧
      response.iob.HoldsText (2*(serverResponse line).length) (serverResponse line) :=
  processInputMessage_cstr msg line (IOBuffer.HoldsText.cstr h hne hz) hz h.length_le

/-- The response to a line of at most 4077 bytes fits the buffer it is serialized to. -/
theorem response_serializes (msg : NewLineMsg) (line : Bytes) (h : msg.Says line)
    (hpos : 1 ≤ line.length) (hle : line.length ≤ 4077) (hz : 0 ∉ line) :
    ∃ response iob, processInputMessage msg = .ok response ∧
      newlineMsgSerialize response = .ok iob ∧
      iob.HoldsText iobufferDefaultCapacity (echoLine line) := by
  obtain ⟨response, hprocess, hresponse⟩ := processInputMessage_holds msg line h
    (List.length_pos_iff.mp hpos) hz
  have hlen := serverResponse_length line
  obtain ⟨iob, hserial, hiob⟩ := newlineMsgSerialize_holds response _ (serverResponse line) hresponse
    (List.length_pos_iff.mp (by omega)) (zero_not_mem_serverResponse line hz)
    (by rw [iobufferDefaultCapacity]; omega)
  exact ⟨response, iob, hprocess, hserial, hiob⟩

section names

variable {w t : StreamWorld} {e : StreamEvent}

def StreamEvent.startsRead : StreamEvent → List ℕ
  | .read cb => [cb]
  | _ => []

def StreamEvent.startsWrite : StreamEvent → List ℕ
  | .write cb _ => [cb]
  | _ => []

/-- Only the client's calls add to the calls made. -/
theorem exec_calls (h : w.exec e = .ok t) :
    t.reads = w.reads ++ e.startsRead ∧ t.writes = w.writes ++ e.startsWrite := by
  cases e with
  | read cb =>
    obtain ⟨r, -, h⟩ := (bind_eq_ok _ _ _).mp h
    obtain rfl := Except.ok.inj h
    exact ⟨rfl, (List.append_nil _).symm⟩
  | write cb msg =>
    obtain ⟨r, -, h⟩ := (bind_eq_ok _ _ _).mp h
    obtain rfl := Except.ok.inj h
    exact ⟨(List.append_nil _).symm, rfl⟩
  | readReturns | writeReturns | runPosted | readReady =>
    obtain ⟨r, -, h⟩ := (bind_eq_ok _ _ _).mp h
    obtain rfl := Except.ok.inj h
    exact ⟨(List.append_nil _).symm, (List.append_nil _).symm⟩

theorem StreamEvent.startsRead_of_library (hc : e.byClient = false) : e.startsRead = [] := by
  cases e with
  | read cb => cases hc
  | write | readReturns | writeReturns | runPosted | readReady => rfl

/-- The calls carry the numbers that come before their count. -/
def Numbered (calls : List ℕ) : Prop := ∀ i ∈ calls, i < calls.length

theorem Numbered.snoc {calls : List ℕ} (h : Numbered calls) : Numbered (calls ++ [calls.length]) := by
  intro i hi
  rw [List.length_append, List.length_singleton]
  rcases List.mem_append.mp hi with hold | hnew
  · exact Nat.lt_succ_of_lt (h i hold)
  · rw [List.mem_singleton.mp hnew]
    exact Nat.lt_succ_self _

theorem Numbered.fresh {calls : List ℕ} (h : Numbered calls) : calls.length ∉ calls :=
  fun hmem => Nat.lt_irrefl _ (h _ hmem)

end names

/-- The app's round: its read is posted, a read is under way, or a response is. The
texts handed to `msg_stream_write` answer the messages handed over, in order. -/
structure EchoWorld.Echoes (w : EchoWorld) (peer : Bytes) (rp : ReadPhase) (wp : WritePhase)
    (rest : List Cell) : Prop where
  reads : w.world.ReadsAt peer rp
  writes : w.world.WritesAt wp rest
  turn : w.posted+(if rp = .idle then 0 else 1)+(if wp = .idle then 0 else 1) = 1
  outputs : w.world.outputs = w.world.handed.map echoCells
  readNames : Numbered w.world.reads
  writeNames : Numbered w.world.writes

section step

variable {w : EchoWorld} {t : StreamWorld} {peer : Bytes} {rp rp' : ReadPhase} {wp : WritePhase}
  {rest : List Cell}

theorem MsgReadStep.call_ne {w₀ : StreamWorld} (h : MsgReadStep w₀ t rp) : t.call ≠ .write := by
  cases h with
  | delivers cb msg hcall hdelivered =>
    rw [hcall]
    nofun
  | proceeds phase hp hcall hdelivered =>
    rw [hcall]
    cases rp <;> nofun

/-- With its read posted the app has nothing else under way. -/
theorem EchoWorld.Echoes.alone_posted (h : w.Echoes peer rp wp rest) (hp : 0 < w.posted) :
    w.posted = 1 ∧ rp = .idle ∧ wp = .idle := by
  have hturn := h.turn
  split_ifs at hturn with hr hw
  · exact ⟨hturn, hr, hw⟩
  all_goals omega

theorem EchoWorld.Echoes.alone_reading (h : w.Echoes peer rp wp rest) (hp : rp ≠ .idle) :
    w.posted = 0 ∧ wp = .idle := by
  have hturn := h.turn
  rw [if_neg hp] at hturn
  split_ifs at hturn with hw
  · exact ⟨by omega, hw⟩
  · omega

/-- The app has no part in a step that does not call it back. -/
theorem react_reading (phase : ReadPhase) (h : w.world.call = phase.call) : w.react = .ok w := by
  cases phase <;> simp only [EchoWorld.react, h, ReadPhase.call]

theorem react_writing (phase : WritePhase) (h : w.world.call = phase.call) : w.react = .ok w := by
  cases phase <;> simp only [EchoWorld.react, h, WritePhase.call]

/-- A line the app is handed is one of the peer's. -/
theorem handed_line (h : t.ReadsAt peer rp) (msg : NewLineMsg) (hm : msg ∈ t.handed) :
    ∃ line ∈ completeLines peer, msg.Says line := by
  obtain ⟨line, hline, hsays⟩ := says_mem h.parsed.lines (List.mem_append_left _ hm)
  have hprefix := completePieces_append isLineEnd t.received t.incoming
  rw [h.history.input] at hprefix
  exact ⟨line, hprefix.subset hline, hsays⟩

/-- The app answers a message: the read is over and the write is under way. -/
theorem echo_answers (doneCb : Bool) (done : List ℤ)
    (hlines : ∀ line ∈ completeLines peer, 1 ≤ line.length ∧ line.length ≤ 4077)
    (hr : t.ReadsAt peer .idle) (hw : t.WritesAt .idle rest) (cb : ℕ) (msg : NewLineMsg)
    (before : List NewLineMsg) (hcall : t.call = .readCallback cb (some msg) 0)
    (hhanded : t.handed = before ++ [msg]) (hout : t.outputs = before.map echoCells)
    (hreads : Numbered t.reads) (hwrites : Numbered t.writes) :
    ∃ u rest', EchoWorld.react ⟨t, 0, doneCb, done⟩ = .ok u ∧
      u.Echoes peer .idle .writing rest' := by
  obtain ⟨line, hline, hsays⟩ := handed_line hr msg (by
    rw [hhanded]
    exact List.mem_append_right _ (List.mem_singleton.mpr rfl))
  obtain ⟨hpos, hle⟩ := hlines line hline
  obtain ⟨response, iob, hprocess, hserial, hiob⟩ := response_serializes msg line hsays hpos hle
    (zero_not_mem_line peer line hline)
  obtain ⟨u, hx, hu, -, houtputs, hstarted, -⟩ := writes_write hw response t.writes.length iob _
    (echoLine line) hserial hiob (by simp [echoLine])
  obtain ⟨hread, hdelivered, -⟩ := reads_keep hr _ (hcall ▸ nofun) rfl hx
  refine ⟨⟨u, 0, doneCb, done⟩, (echoLine line).map some, ?_, hread, hu, rfl, ?_, ?_, ?_⟩
  · simp only [EchoWorld.react, hcall, EchoWorld.msgReadCallback, ne_eq, not_true_eq_false, if_false]
    rw [hprocess, ok_bind, hx, ok_bind]
  · show u.outputs = u.handed.map echoCells
    have hsame : u.handed = t.handed := by
      rw [StreamWorld.handed, hdelivered, StreamWorld.handed]
    rw [houtputs, hsame, hhanded, hout, List.map_append, List.map_singleton, hsays.echoCells]
  · show Numbered u.reads
    rw [(exec_calls hx).1]
    exact (List.append_nil t.reads).symm ▸ hreads
  · show Numbered u.writes
    rw [hstarted]
    exact hwrites.snoc

/-- A step of reading, which leaves the stream as `t`. -/
structure EchoWorld.ReadsOn (w : EchoWorld) (peer : Bytes) (t : StreamWorld) (rp : ReadPhase) :
    Prop where
  reads : t.ReadsAt peer rp
  step : MsgReadStep w.world t rp
  keep : w.world.KeepsWriting t
  names : Numbered t.reads

/-- The app after it, before its own part: no read of its own is posted. -/
def EchoWorld.withRead (w : EchoWorld) (t : StreamWorld) : EchoWorld := ⟨t, 0, w.doneCb, w.done⟩

/-- The message that a step of reading hands over. -/
theorem EchoWorld.ReadsOn.handed (h : w.ReadsOn peer t rp) :
    (rp = .idle ∧ ∃ cb msg, t.call = .readCallback cb (some msg) 0 ∧
      t.handed = w.world.handed ++ [msg]) ∨
    (rp ≠ .idle ∧ t.call = rp.call ∧ t.handed = w.world.handed) := by
  cases h.step with
  | delivers cb msg hcall hdelivered =>
    refine .inl ⟨rfl, cb, msg, hcall, ?_⟩
    rw [StreamWorld.handed, hdelivered, List.filterMap_append]
    rfl
  | proceeds phase hp hcall hdelivered =>
    refine .inr ⟨hp, hcall, ?_⟩
    rw [StreamWorld.handed, hdelivered, StreamWorld.handed]

/-- The posted read of the app. -/
theorem EchoWorld.Echoes.posted_read (h : w.Echoes peer rp wp rest) (he : w.Enabled .postableRead) :
    (w.posted = 1 ∧ rp = .idle ∧ wp = .idle) ∧
      ∃ t rp', w.world.exec (.read w.world.reads.length) = .ok t ∧ w.ReadsOn peer t rp' ∧
        w.exec .postableRead = (w.withRead t).react := by
  obtain ⟨hfree, hposted⟩ := he
  obtain ⟨hone, rfl, rfl⟩ := h.alone_posted hposted
  have hnow := h.reads.history.reads
  rw [h.reads.stream.idle.mp rfl, Option.toList_none, List.append_nil] at hnow
  have henabled : w.world.Enabled (.read w.world.reads.length) :=
    ⟨hfree, fun i hi => hnow ▸ hi, h.readNames.fresh⟩
  obtain ⟨t, rp', hx, hr, hstep, hkeep⟩ := reads_read h.reads _ henabled
  have hreads : Numbered t.reads := by
    rw [(exec_calls hx).1]
    exact h.readNames.snoc
  refine ⟨⟨hone, rfl, rfl⟩, t, rp', hx, ⟨hr, hstep, hkeep, hreads⟩, ?_⟩
  rw [EchoWorld.exec, hx, ok_bind, hone, Nat.sub_self]
  rfl

/-- Any other step of reading, unless an unfinished line outgrows its message. -/
theorem EchoWorld.Echoes.stream_read (h : w.Echoes peer rp wp rest)
    (hshort : ∀ line ∈ completeLines peer, line.length ≤ iobufferDefaultCapacity) (e : StreamEvent)
    (hr : e.Reading) (hc : e.byClient = false) (he : w.world.Enabled e) :
    (w.posted = 0 ∧ wp = .idle) ∧
    ((∃ t rp', w.world.exec e = .ok t ∧ w.ReadsOn peer t rp' ∧
        w.exec (.stream e) = (w.withRead t).react) ∨
      (w.exec (.stream e) = .error (.assertion "mem_len >= len") ∧
        iobufferDefaultCapacity < (unfinishedLine peer).length)) := by
  obtain ⟨hzero, rfl⟩ := h.alone_reading (h.reads.busy e hr hc he)
  refine ⟨⟨hzero, rfl⟩, ?_⟩
  rcases reads_go h.reads hshort e hr he with ⟨t, rp', hx, hat, hstep, hkeep⟩ | ⟨hx, hlong⟩
  · left
    have hreads : Numbered t.reads := by
      rw [(exec_calls hx).1, StreamEvent.startsRead_of_library hc, List.append_nil]
      exact h.readNames
    refine ⟨t, rp', hx, ⟨hat, hstep, hkeep, hreads⟩, ?_⟩
    rw [EchoWorld.exec, hx, ok_bind, hzero]
    rfl
  · right
    exact ⟨by rw [EchoWorld.exec, hx, error_bind], hlong⟩

/-- Writing is where it was. -/
theorem EchoWorld.Echoes.writes_kept (h : w.Echoes peer rp .idle rest) (ht : w.ReadsOn peer t rp') :
    t.WritesAt .idle rest ∧ Numbered t.writes ∧ t.outputs = w.world.handed.map echoCells := by
  refine ⟨h.writes.keep ht.keep (by decide) ht.step.call_ne, ?_, ht.keep.outputs.trans h.outputs⟩
  rw [ht.keep.writes]
  exact h.writeNames

/-- A step that hands nothing over leaves the app as it is. -/
theorem EchoWorld.Echoes.read_on (h : w.Echoes peer rp .idle rest) (ht : w.ReadsOn peer t rp')
    (hp : rp' ≠ .idle) (hcall : t.call = rp'.call) (hhanded : t.handed = w.world.handed) :
    (w.withRead t).react = .ok (w.withRead t) ∧ (w.withRead t).Echoes peer rp' .idle rest := by
  obtain ⟨htw, htn, hto⟩ := h.writes_kept ht
  refine ⟨react_reading rp' hcall, ht.reads, htw, ?_, ?_, ht.names, htn⟩
  · rw [if_neg hp]
    rfl
  · exact hto.trans (by rw [← hhanded]; rfl)

/-- What the app makes of a step of reading. -/
theorem EchoWorld.Echoes.read (h : w.Echoes peer rp .idle rest)
    (hlines : ∀ line ∈ completeLines peer, 1 ≤ line.length ∧ line.length ≤ 4077)
    (ht : w.ReadsOn peer t rp') :
    ∃ u rp₁ wp₁ rest₁, (w.withRead t).react = .ok u ∧ u.Echoes peer rp₁ wp₁ rest₁ := by
  rcases ht.handed with ⟨rfl, cb, msg, hcall, hhanded⟩ | ⟨hp, hcall, hhanded⟩
  · obtain ⟨htw, htn, hto⟩ := h.writes_kept ht
    obtain ⟨u, rest₁, hreact, hu⟩ := echo_answers w.doneCb w.done hlines ht.reads htw cb msg
      w.world.handed hcall hhanded hto ht.names htn
    exact ⟨u, .idle, .writing, rest₁, hreact, hu⟩
  · obtain ⟨hreact, hu⟩ := h.read_on ht hp hcall hhanded
    exact ⟨w.withRead t, rp', .idle, rest, hreact, hu⟩

/-- What the app makes of a step of writing. -/
theorem echo_write (h : w.Echoes peer rp wp rest) (e : StreamEvent) (hp : e.PlainWrite)
    (hw : e.ofWriting = true) (hc : e.byClient = false) (he : w.world.Enabled e) :
    ∃ u rp' wp' rest', w.exec (.stream e) = .ok u ∧ u.Echoes peer rp' wp' rest' := by
  have hbusy := h.writes.busy e hw hc he
  have hturn := h.turn
  rw [if_neg hbusy] at hturn
  obtain ⟨t, wp', rest', hx, htw, hstep, houtputs, hwrites⟩ := writes_go h.writes e hp hw hc he
  obtain ⟨htr, hdelivered, -⟩ := reads_keep h.reads e
    (StreamWorld.call_ne_read e he hw) hw hx
  have hout : t.outputs = t.handed.map echoCells := by
    rw [houtputs, h.outputs, StreamWorld.handed, ← hdelivered, StreamWorld.handed]
  have hreads : Numbered t.reads := by
    rw [(exec_calls hx).1, StreamEvent.startsRead_of_library hc, List.append_nil]
    exact h.readNames
  have hnames : Numbered t.writes := by
    rw [hwrites]
    exact h.writeNames
  rw [EchoWorld.exec, hx, ok_bind]
  cases hstep with
  | completes cb hcall =>
    refine ⟨EchoWorld.msgWriteCallback { w with world := t }, rp, .idle, rest', ?_, htr, htw, ?_, hout,
      hreads, hnames⟩
    · simp only [EchoWorld.react, hcall]
    · show w.posted+1+(if rp = .idle then 0 else 1)+0 = 1
      omega
  | proceeds phase hne hcall =>
    refine ⟨{ w with world := t }, rp, wp', rest', react_writing wp' hcall, htr, htw, ?_, hout,
      hreads, hnames⟩
    rw [if_neg hne]
    exact hturn

/-- Every event returns and keeps the round, unless the peer's last line, still without its
end, is longer than a message can be. -/
theorem echo_go (h : w.Echoes peer rp wp rest)
    (hlines : ∀ line ∈ completeLines peer, 1 ≤ line.length ∧ line.length ≤ 4077) (e : EchoEvent)
    (hp : e.Plain) (he : w.Enabled e) :
    (∃ u rp' wp' rest', w.exec e = .ok u ∧ u.Echoes peer rp' wp' rest') ∨
    (w.exec e = .error (.assertion "mem_len >= len") ∧
      iobufferDefaultCapacity < (unfinishedLine peer).length) := by
  have hshort : ∀ line ∈ completeLines peer, line.length ≤ iobufferDefaultCapacity := by
    intro line hline
    exact (hlines line hline).2.trans (by decide)
  cases e with
  | postableRead =>
    left
    obtain ⟨⟨-, rfl, rfl⟩, t, rp', -, ht, hexec⟩ := h.posted_read he
    rw [hexec]
    exact h.read hlines ht
  | stream e =>
    obtain ⟨he, hc⟩ := he
    by_cases hw : e.ofWriting = true
    · exact .inl (echo_write h e hp.2 hw hc he)
    · obtain ⟨⟨-, rfl⟩, ⟨t, rp', -, ht, hexec⟩ | hlong⟩ :=
        h.stream_read hshort e (e.reading_of_plain hp.1 hw) hc he
      · left
        rw [hexec]
        exact h.read hlines ht
      · exact .inr hlong

end step

/-- The server's output so far: the start of the answers to the lines received, at most one
of which is on its way; and the next event returns, unless the peer's unfinished last line
has outgrown its message. -/
structure EchoWorld.OutputExact (w : EchoWorld) (peer : Bytes) : Prop where
  received : w.world.received <+: peer
  written : w.world.written <+: ((completeLines w.world.received).flatMap echoLine).map some
  single : w.world.writes.length ≤ w.world.completed.length+1
  returns : ∀ e : EchoEvent, e.Plain → w.Enabled e → (∃ t, w.exec e = .ok t) ∨
    (w.exec e = .error (.assertion "mem_len >= len") ∧ 4096 < (unfinishedLine peer).length)

theorem echoCells_lines {msgs : List NewLineMsg} {lines : List Bytes}
    (h : List.Forall₂ NewLineMsg.Says msgs lines) :
    (msgs.map echoCells).flatten = (lines.flatMap echoLine).map some := by
  induction h with
  | nil => rfl
  | cons hmsg _ ih =>
    rw [List.map_cons, List.flatten_cons, ih, hmsg.echoCells, List.flatMap_cons, List.map_append]

/-- The answers to the messages handed over come first among the answers to all lines. -/
theorem answers_prefix {t : StreamWorld} {peer : Bytes} {rp : ReadPhase} (h : t.ReadsAt peer rp) :
    (t.handed.map echoCells).flatten <+:
      ((completeLines t.received).flatMap echoLine).map some := by
  rw [← echoCells_lines h.parsed.lines, List.map_append, List.flatten_append]
  exact List.prefix_append _ _

theorem EchoWorld.Echoes.outputExact {w : EchoWorld} {peer : Bytes} {rp : ReadPhase}
    {wp : WritePhase} {rest : List Cell} (h : w.Echoes peer rp wp rest)
    (hlines : ∀ line ∈ completeLines peer, 1 ≤ line.length ∧ line.length ≤ 4077) :
    w.OutputExact peer := by
  refine ⟨⟨_, h.reads.history.input⟩, ?_, ?_, ?_⟩
  · have hprogress := h.writes.progress
    rw [h.outputs] at hprogress
    calc
      w.world.written <+: w.world.written ++ rest := List.prefix_append _ _
      _ = (w.world.handed.map echoCells).flatten := hprogress
      _ <+: _ := answers_prefix h.reads
  · have hcb : w.world.stream.writeCb.toList.length ≤ 1 := by
      cases w.world.stream.writeCb with
      | none => exact Nat.zero_le 1
      | some cb => exact le_rfl
    rw [h.writes.writes, List.length_append]
    omega
  · intro e hp he
    rcases echo_go h hlines e hp he with ⟨t, -, -, -, hx, -⟩ | hfails
    · exact .inl ⟨t, hx⟩
    · exact .inr hfails

theorem echoAppRun_echoes (malloced : TcpStream) (hidle : malloced.Idle) (m : MsgStream ℕ)
    (hinit : msgStreamInit ℕ malloced = .ok m) (peer : Bytes) :
    (echoAppRun m peer).Echoes peer .idle .idle [] := by
  have hreads := streamWorld_init malloced hidle.inputBuffer hidle.readCb m hinit peer
  obtain ⟨mp, -, hinit⟩ := (bind_eq_ok _ _ _).mp hinit
  obtain rfl := Except.ok.inj hinit
  refine ⟨hreads, ⟨⟨hidle.outputBuffer, hidle.writeCb, iff_of_true rfl rfl, fun _ => ⟨rfl, rfl⟩,
    fun hp => absurd rfl hp⟩, iff_of_false nofun nofun, rfl, rfl, rfl⟩, rfl, rfl, nofun, nofun⟩

theorem echo_output_exact (malloced : TcpStream) (hidle : malloced.Idle) (m : MsgStream ℕ)
    (hinit : msgStreamInit ℕ malloced = .ok m) (peer : Bytes)
    (hlines : ∀ line ∈ completeLines peer, 1 ≤ line.length ∧ line.length ≤ 4077)
    (es : List EchoEvent) (hplain : ∀ e ∈ es, e.Plain) (w : EchoWorld)
    (h : echoMachine.Run (echoAppRun m peer) es w) : w.OutputExact peer := by
  obtain ⟨rp, wp, rest, hw⟩ : ∃ rp wp rest, w.Echoes peer rp wp rest := by
    refine h.invariant (I := fun w => ∃ rp wp rest, w.Echoes peer rp wp rest) (A := EchoEvent.Plain)
      ?_ ⟨.idle, .idle, [], echoAppRun_echoes malloced hidle m hinit peer⟩ hplain
    rintro u e v ⟨rp, wp, rest, hu⟩ hp he hx
    rcases echo_go hu hlines e hp he with ⟨v', rp', wp', rest', hx', hv⟩ | ⟨hx', -⟩
    · obtain rfl := Except.ok.inj (hx.symm.trans hx')
      exact ⟨rp', wp', rest', hv⟩
    · cases hx.symm.trans hx'
  exact hw.outputExact hlines

/-- One line, read in two blocks after an EAGAIN; the answer leaves in two pieces. -/
theorem echo_output_one_line :
    ∃ m w, msgStreamInit ℕ ⟨⟨.ready, false, false⟩, ⟨.ready, false, false⟩⟩ = .ok m ∧
      echoMachine.Run (echoAppRun m [104, 105, 10]) [.postableRead, .stream (.readReturns .eagain),
        .stream .readReady, .stream (.readReturns (.bytes [104])),
        .stream (.runPosted .postableRead), .stream (.readReturns (.bytes [105, 10])),
        .stream (.writeReturns (.wrote 3)), .stream (.runPosted .postableTryWrite),
        .stream (.writeReturns (.wrote 17)), .postableRead] w ∧
      w.world.written = (ascii "ServerResponse:[hi]" ++ [10]).map some ∧
      w.OutputExact [104, 105, 10] := by
  have hrun : ∃ w, echoMachine.Run (echoAppRun
        ⟨⟨⟨.initial, false, false⟩, ⟨.initial, false, false⟩⟩,
          ⟨⟨⟨List.replicate 4097 none, 4096, 0, 0⟩⟩⟩, none, none, [], none, none⟩ [104, 105, 10])
      [.postableRead, .stream (.readReturns .eagain), .stream .readReady,
        .stream (.readReturns (.bytes [104])), .stream (.runPosted .postableRead),
        .stream (.readReturns (.bytes [105, 10])), .stream (.writeReturns (.wrote 3)),
        .stream (.runPosted .postableTryWrite), .stream (.writeReturns (.wrote 17)),
        .postableRead] w ∧
      w.world.written = (ascii "ServerResponse:[hi]" ++ [10]).map some :=
    Machine.exists_run_of_replay _ (by decide +kernel)
  obtain ⟨w, hrun, hend⟩ := hrun
  exact ⟨_, w, rfl, hrun, hend, echo_output_exact ⟨⟨.ready, false, false⟩, ⟨.ready, false, false⟩⟩
    ⟨rfl, rfl, rfl, rfl⟩ _ rfl _ (by decide) _
    (by simp [EchoEvent.Plain, StreamEvent.PlainRead, StreamEvent.PlainWrite]) w hrun⟩

end CHttp
