import CHttp.EchoApp

/-! The echo server while its peer goes on sending: what a step does to the bytes on both
sides, and how much work it leaves. -/
namespace CHttp

/-- The bytes that an event takes from the peer. -/
def StreamEvent.takes : StreamEvent → Bytes
  | .readReturns r => r.data
  | _ => []

def EchoEvent.takes : EchoEvent → Bytes
  | .postableRead => []
  | .stream e => e.takes

/-- The peer sends more. -/
def EchoWorld.hear (w : EchoWorld) (d : Bytes) : EchoWorld :=
  { w with world := { w.world with incoming := w.world.incoming ++ d } }

section frame

variable {w t : StreamWorld} {e : StreamEvent}

theorem exec_bytes (h : w.exec e = .ok t) :
    t.incoming = w.incoming.drop e.takes.length ∧ w.written <+: t.written := by
  cases e with
  | readReturns result =>
    obtain ⟨r, -, h⟩ := (bind_eq_ok _ _ _).mp h
    obtain rfl := Except.ok.inj h
    exact ⟨rfl, List.prefix_rfl⟩
  | writeReturns result =>
    obtain ⟨r, -, h⟩ := (bind_eq_ok _ _ _).mp h
    obtain rfl := Except.ok.inj h
    exact ⟨rfl, List.prefix_append _ _⟩
  | read | write | runPosted | readReady =>
    obtain ⟨r, -, h⟩ := (bind_eq_ok _ _ _).mp h
    obtain rfl := Except.ok.inj h
    exact ⟨rfl, List.prefix_rfl⟩

/-- The app's own part leaves the bytes alone, and adds nothing to what was handed over. -/
theorem react_bytes {w u : EchoWorld} (h : w.react = .ok u) :
    u.world.incoming = w.world.incoming ∧ w.world.written <+: u.world.written ∧
      u.world.delivered = w.world.delivered := by
  have hsame : ∀ v : EchoWorld, v.world = w.world → v.world.incoming = w.world.incoming ∧
      w.world.written <+: v.world.written ∧ v.world.delivered = w.world.delivered := by
    intro v hv
    rw [hv]
    exact ⟨rfl, List.prefix_rfl, rfl⟩
  unfold EchoWorld.react at h
  split at h
  · next cb msg error hcall =>
    unfold EchoWorld.msgReadCallback EchoWorld.invokeDoneCallback at h
    split_ifs at h with herror hdone
    · obtain rfl := Except.ok.inj h
      exact hsame _ rfl
    · cases msg with
      | none => cases h
      | some msg =>
        obtain ⟨response, -, h⟩ := (bind_eq_ok _ _ _).mp h
        obtain ⟨t, hx, h⟩ := (bind_eq_ok _ _ _).mp h
        obtain rfl := Except.ok.inj h
        obtain ⟨hincoming, hwritten⟩ := exec_bytes hx
        refine ⟨hincoming, hwritten, ?_⟩
        obtain ⟨r, hwrite, hx⟩ := (bind_eq_ok _ _ _).mp hx
        obtain rfl := Except.ok.inj hx
        have hwriting := (msgStreamWrite_frame hwrite).2
        obtain ⟨m, call⟩ := r
        cases call with
        | readCallback => cases hwriting
        | returned | read | write | post | writeCallback => rfl
  · obtain rfl := Except.ok.inj h
    exact hsame _ rfl
  · obtain rfl := Except.ok.inj h
    exact hsame _ rfl

/-- A step takes its bytes from the front of what is coming in, and writes on. -/
theorem echo_bytes {w u : EchoWorld} {e : EchoEvent} (h : w.exec e = .ok u) :
    u.world.incoming = w.world.incoming.drop e.takes.length ∧ w.world.written <+: u.world.written := by
  cases e with
  | postableRead =>
    obtain ⟨t, hx, h⟩ := (bind_eq_ok _ _ _).mp h
    obtain ⟨hincoming, hwritten⟩ := exec_bytes hx
    obtain ⟨hincoming', hwritten', -⟩ := react_bytes h
    exact ⟨hincoming'.trans hincoming, hwritten.trans hwritten'⟩
  | stream e =>
    obtain ⟨t, hx, h⟩ := (bind_eq_ok _ _ _).mp h
    obtain ⟨hincoming, hwritten⟩ := exec_bytes hx
    obtain ⟨hincoming', hwritten', -⟩ := react_bytes h
    exact ⟨hincoming'.trans hincoming, hwritten.trans hwritten'⟩

end frame

section hear

variable {w : EchoWorld} {peer : Bytes} {rp : ReadPhase} {wp : WritePhase} {rest : List Cell}

/-- The server's round does not depend on what the peer will send. -/
theorem EchoWorld.Echoes.hear (h : w.Echoes peer rp wp rest) (d : Bytes) :
    (w.hear d).Echoes (peer ++ d) rp wp rest := by
  obtain ⟨⟨hhistory, hstream, hparsed, hcall, hposted⟩, ⟨hwstream, hwcall, hwposted, hwrites,
    hprogress⟩, hturn, houtputs, hreads, hnames⟩ := h
  refine ⟨⟨⟨?_, hhistory.carried, hhistory.reads, hhistory.nodup⟩, hstream, hparsed, hcall,
    hposted⟩, ⟨hwstream, hwcall, hwposted, hwrites, hprogress⟩, hturn, houtputs, hreads, hnames⟩
  show w.world.received ++ (w.world.incoming ++ d) = peer ++ d
  rw [← hhistory.input, List.append_assoc]

/-- The answers to the messages handed over come first among the answers to the peer. -/
theorem handed_answers {t : StreamWorld} (h : t.ReadsAt peer rp) :
    (t.handed.map echoCells).flatten <+: ((completeLines peer).flatMap echoLine).map some := by
  have hlines : completeLines t.received <+: completeLines peer := by
    rw [← h.history.input]
    exact completePieces_append isLineEnd _ _
  obtain ⟨more, hmore⟩ := hlines
  calc
    (t.handed.map echoCells).flatten <+:
        ((completeLines t.received).flatMap echoLine).map some := answers_prefix h
    _ <+: ((completeLines peer).flatMap echoLine).map some := by
      rw [← hmore, List.flatMap_append, List.map_append]
      exact List.prefix_append _ _

/-- What the server has written answers lines of its peer. -/
theorem EchoWorld.Echoes.written_prefix (h : w.Echoes peer rp wp rest) :
    w.world.written <+: ((completeLines peer).flatMap echoLine).map some := by
  have hprogress := h.writes.progress
  rw [h.outputs] at hprogress
  calc
    w.world.written <+: w.world.written ++ rest := List.prefix_append _ _
    _ = (w.world.handed.map echoCells).flatten := hprogress
    _ <+: ((completeLines peer).flatMap echoLine).map some := handed_answers h.reads

/-- A server that waits for a peer from which nothing is coming has answered all of its
lines. -/
theorem EchoWorld.Echoes.quiescent (h : w.Echoes peer .waiting wp rest)
    (hin : w.world.incoming = []) :
    w.world.written = ((completeLines peer).flatMap echoLine).map some := by
  obtain ⟨-, rfl⟩ := h.alone_reading (by decide)
  have hinput := h.reads.history.input
  rw [hin, List.append_nil] at hinput
  have hlines := h.reads.parsed.lines
  rw [(h.reads.stream.busy (by decide)).1, List.append_nil, hinput] at hlines
  have hprogress := h.writes.progress
  rw [(h.writes.stream.cleared rfl).2, List.append_nil, h.outputs] at hprogress
  rw [hprogress, echoCells_lines hlines]

end hear

/-- What the socket really does: `read` fails with EAGAIN only where nothing has come in, a
readiness event says that something has, and `write` has room for a byte. -/
def EchoWorld.Truthful (w : EchoWorld) : EchoEvent → Prop
  | .stream (.readReturns .eagain) => w.world.incoming = []
  | .stream .readReady => w.world.incoming ≠ []
  | .stream (.writeReturns .eagain) => False
  | e => e.Plain

instance EchoEvent.decidablePlain (e : EchoEvent) : Decidable e.Plain :=
  match e with
  | .postableRead => isTrue trivial
  | .stream (.read _) | .stream (.write _ _) | .stream (.runPosted _) | .stream .readReady =>
    isTrue ⟨trivial, trivial⟩
  | .stream (.readReturns (.bytes _)) | .stream (.readReturns .eagain) => isTrue ⟨trivial, trivial⟩
  | .stream (.readReturns (.eof _)) | .stream (.readReturns (.failed _)) => isFalse fun h => h.1
  | .stream (.writeReturns (.wrote _)) | .stream (.writeReturns .eagain) =>
    isTrue ⟨trivial, trivial⟩
  | .stream (.writeReturns (.nothing _)) | .stream (.writeReturns (.failed _)) =>
    isFalse fun h => h.2

instance EchoWorld.decidableTruthful (w : EchoWorld) (e : EchoEvent) : Decidable (w.Truthful e) :=
  match e with
  | .postableRead => isTrue trivial
  | .stream (.read _) | .stream (.write _ _) | .stream (.runPosted _) => isTrue ⟨trivial, trivial⟩
  | .stream .readReady => inferInstanceAs (Decidable (w.world.incoming ≠ []))
  | .stream (.readReturns .eagain) => inferInstanceAs (Decidable (w.world.incoming = []))
  | .stream (.readReturns (.bytes _)) => isTrue ⟨trivial, trivial⟩
  | .stream (.readReturns (.eof _)) | .stream (.readReturns (.failed _)) => isFalse fun h => h.1
  | .stream (.writeReturns .eagain) => isFalse id
  | .stream (.writeReturns (.wrote _)) => isTrue ⟨trivial, trivial⟩
  | .stream (.writeReturns (.nothing _)) | .stream (.writeReturns (.failed _)) =>
    isFalse fun h => h.2

theorem EchoWorld.Truthful.plain {w : EchoWorld} {e : EchoEvent} (h : w.Truthful e) : e.Plain := by
  cases e with
  | postableRead => trivial
  | stream e =>
    cases e with
    | read | write | runPosted | readReady => exact ⟨trivial, trivial⟩
    | readReturns r =>
      cases r with
      | bytes | eagain => exact ⟨trivial, trivial⟩
      | eof | failed => exact h
    | writeReturns r =>
      cases r with
      | eagain => exact h.elim
      | wrote => exact ⟨trivial, trivial⟩
      | nothing | failed => exact h

/-- The work that a phase of a read stands for. A `read` that finds nothing has the server
wait, and is one step more. -/
def ReadPhase.work (incoming : Bytes) : ReadPhase → ℕ
  | .idle => 0
  | .reading => if incoming = [] then 2 else 0
  | .waiting => 1
  | .posted => 3

def WritePhase.work : WritePhase → ℕ
  | .posted => 1
  | .idle | .writing | .stalled => 0

/-- The work left where the peer has sent so many lines, none of which has an answer of more
than `b` bytes: every byte and every answer has its price. -/
def EchoWorld.work (w : EchoWorld) (b lines : ℕ) (rp : ReadPhase) (wp : WritePhase)
    (rest : List Cell) : ℕ :=
  (8*b+1)*(lines-w.world.handed.length)+4*w.world.incoming.length+8*rest.length+5*w.posted+
    rp.work w.world.incoming+wp.work

theorem ReadPhase.work_le (incoming : Bytes) (rp : ReadPhase) : rp.work incoming ≤ 3 := by
  unfold ReadPhase.work
  split
  · exact Nat.zero_le 3
  · split_ifs <;> decide
  · decide
  · decide

theorem WritePhase.work_le (wp : WritePhase) : wp.work ≤ 1 := by
  cases wp <;> decide

section spends

variable {w : EchoWorld} {t : StreamWorld} {peer : Bytes} {rp rp' : ReadPhase} {wp : WritePhase}
  {rest : List Cell} {b : ℕ}

theorem EchoWorld.Echoes.handed_le (h : w.Echoes peer rp wp rest) :
    w.world.handed.length ≤ (completeLines peer).length := by
  have hlines : completeLines w.world.received <+: completeLines peer := by
    rw [← h.reads.history.input]
    exact completePieces_append isLineEnd _ _
  have hlen := h.reads.parsed.lines.length_eq
  rw [List.length_append] at hlen
  have hle := hlines.length_le
  omega

theorem EchoWorld.Echoes.rest_length (h : w.Echoes peer rp wp rest) :
    w.world.written.length+rest.length = (w.world.handed.map echoCells).flatten.length := by
  rw [← List.length_append, h.writes.progress, h.outputs]

/-- The price of a message that is handed over covers its answer. -/
theorem echoCells_length_le (hb : ∀ line ∈ completeLines peer, (echoLine line).length ≤ b)
    (hr : t.ReadsAt peer rp) (msg : NewLineMsg) (hm : msg ∈ t.handed) :
    (echoCells msg).length ≤ b := by
  obtain ⟨line, hline, hsaid⟩ := handed_line hr msg hm
  rw [hsaid.echoCells, List.length_map]
  exact hb line hline

/-- A step of reading costs what it takes in and the change of phase. An answer that it
starts is paid for by the message it answers. -/
theorem echo_read_spends (hb : ∀ line ∈ completeLines peer, (echoLine line).length ≤ b)
    (hlines : ∀ line ∈ completeLines peer, 1 ≤ line.length ∧ line.length ≤ 4077)
    (h : w.Echoes peer rp .idle rest) (ht : w.ReadsOn peer t rp') :
    ∃ u rp₁ wp₁ rest₁, (w.withRead t).react = .ok u ∧
      u.Echoes peer rp₁ wp₁ rest₁ ∧ wp₁ ≠ .stalled ∧
      u.work b (completeLines peer).length rp₁ wp₁ rest₁ ≤
        (8*b+1)*((completeLines peer).length-w.world.handed.length)+4*t.incoming.length+
          rp'.work t.incoming := by
  obtain rfl := (h.writes.stream.cleared rfl).2
  rcases ht.handed with ⟨rfl, cb, msg, hcall, hhanded⟩ | ⟨hp, hcall, hhanded⟩
  · obtain ⟨htw, htn, hto⟩ := h.writes_kept ht
    obtain ⟨u, rest₁, hreact, hu⟩ := echo_answers w.doneCb w.done hlines ht.reads htw cb msg
      w.world.handed hcall hhanded hto ht.names htn
    refine ⟨u, .idle, .writing, rest₁, hreact, hu, by decide, ?_⟩
    obtain ⟨hincoming, hwritten, hsame⟩ := react_bytes hreact
    have huh : u.world.handed = w.world.handed ++ [msg] := by
      rw [← hhanded, StreamWorld.handed, hsame, StreamWorld.handed]
    have hanswer : rest₁.length ≤ (echoCells msg).length := by
      have hbefore := h.rest_length
      have hafter := hu.rest_length
      have hle : t.written.length ≤ u.world.written.length := hwritten.length_le
      have hkept := congrArg List.length ht.keep.written
      rw [huh, List.map_append, List.flatten_append, List.length_append, List.map_singleton,
        List.flatten_singleton] at hafter
      rw [List.length_nil] at hbefore
      omega
    have hprice := echoCells_length_le hb ht.reads msg (by
      rw [hhanded]
      exact List.mem_append_right _ (List.mem_singleton.mpr rfl))
    have hposted : u.posted+0+1 = 1 := hu.turn
    have hle := hu.handed_le
    rw [huh, List.length_append, List.length_singleton] at hle
    have hone : (completeLines peer).length-w.world.handed.length =
        (completeLines peer).length-(w.world.handed.length+1)+1 := by
      omega
    rw [EchoWorld.work, hincoming, huh, List.length_append, List.length_singleton, hone, Nat.mul_add,
      Nat.mul_one]
    show _+4*t.incoming.length+8*rest₁.length+5*u.posted+0+0 ≤ _+4*t.incoming.length+0
    omega
  · obtain ⟨hreact, hu⟩ := h.read_on ht hp hcall hhanded
    refine ⟨w.withRead t, rp', .idle, [], hreact, hu, by decide, ?_⟩
    rw [EchoWorld.work]
    show (8*b+1)*((completeLines peer).length-t.handed.length)+4*t.incoming.length+8*0+5*0+
      rp'.work t.incoming+0 ≤ _
    rw [hhanded]
    omega

/-- A count that `write` returns is so much less to write, and the server goes on. -/
theorem wrote_spends {w : StreamWorld} (h : w.WritesAt wp rest) (n : ℕ)
    (he : w.Enabled (.writeReturns (.wrote n))) (hx : w.exec (.writeReturns (.wrote n)) = .ok t) :
    t.call ≠ .returned ∧ t.written.length = w.written.length+n := by
  obtain ⟨hcall, -, hn⟩ := he
  obtain rfl := h.call.mp hcall
  obtain ⟨r, hreturns, hx⟩ := (bind_eq_ok _ _ _).mp hx
  obtain rfl := Except.ok.inj hx
  constructor
  · rw [h.stream.output] at hn
    show r.2 ≠ .returned
    by_cases hlast : rest.drop n = []
    · obtain ⟨cb, hcb⟩ := h.stream.writeCb_some (by decide)
      obtain ⟨m, hall, -⟩ := msgWriteReturns_all h.stream hcb n hn hlast
      obtain rfl := Except.ok.inj (hreturns.symm.trans hall)
      rintro ⟨⟩
    · obtain ⟨m, hsome, -⟩ := msgWriteReturns_some h.stream n hn hlast
      obtain rfl := Except.ok.inj (hreturns.symm.trans hsome)
      rintro ⟨⟩
  · show (w.written ++ (msgOutput w.stream).take n).length = _
    rw [List.length_append, List.length_take, Nat.min_eq_left hn]

theorem retry_spends {w : StreamWorld} (h : w.WritesAt wp rest)
    (he : w.Enabled (.runPosted .postableTryWrite))
    (hx : w.exec (.runPosted .postableTryWrite) = .ok t) :
    wp = .posted ∧ t.call = .write ∧ t.written = w.written := by
  obtain ⟨r, hrun, hx⟩ := (bind_eq_ok _ _ _).mp hx
  obtain rfl := Except.ok.inj hx
  obtain ⟨-, -, hr⟩ := (bind_eq_ok _ _ _).mp hrun
  obtain rfl := Except.ok.inj hr
  refine ⟨?_, rfl, rfl⟩
  by_contra hp
  have hcount := List.count_pos_iff.mpr he.2
  rw [h.posted_zero hp] at hcount
  exact Nat.lt_irrefl 0 hcount

/-- After a step of writing there is less to write, or a retry has called `write`. -/
theorem writing_spends {wp' : WritePhase} {rest' : List Cell} (h : w.Echoes peer rp wp rest)
    (e : StreamEvent) (ht : w.Truthful (.stream e)) (hw : e.ofWriting = true)
    (hc : e.byClient = false) (he : w.world.Enabled e) (hx : w.world.exec e = .ok t)
    (htw : t.WritesAt wp' rest') (hstep : MsgWriteStep t wp')
    (houtputs : t.outputs = w.world.outputs) :
    wp' ≠ .stalled ∧ 8*rest'.length+wp'.work+5 < 8*rest.length+wp.work ∨
      wp' = .writing ∧ rest'.length = rest.length ∧ wp.work = 1 := by
  have hrest : t.written.length+rest'.length = w.world.written.length+rest.length := by
    rw [← List.length_append, htw.progress, houtputs, ← h.writes.progress, List.length_append]
  cases e with
  | writeReturns r =>
    cases r with
    | wrote n =>
      left
      obtain ⟨hcall, hlen⟩ := wrote_spends h.writes n he hx
      have hpos : 0 < n := he.2.1
      have hwork := wp'.work_le
      constructor
      · rintro rfl
        cases hstep with
        | proceeds phase hne hstop => exact hcall hstop
      · omega
    | eagain => exact ht.elim
    | nothing | failed => exact ht.2.elim
  | runPosted f =>
    cases f with
    | postableRead => cases hw
    | postableTryWrite =>
      right
      obtain ⟨rfl, hcall, hsame⟩ := retry_spends h.writes he hx
      refine ⟨htw.call.mp hcall, ?_, rfl⟩
      rw [hsame] at hrest
      omega
  | write => cases hc
  | read | readReturns | readReady => cases hw

/-- A step of writing, where EAGAIN does not come up, leaves less work. -/
theorem echo_write_spends (h : w.Echoes peer rp wp rest) (e : StreamEvent)
    (ht : w.Truthful (.stream e)) (hw : e.ofWriting = true) (hc : e.byClient = false)
    (he : w.world.Enabled e) :
    ∃ u rp₁ wp₁ rest₁, w.exec (.stream e) = .ok u ∧ u.Echoes peer rp₁ wp₁ rest₁ ∧ wp₁ ≠ .stalled ∧
      u.work b (completeLines peer).length rp₁ wp₁ rest₁ <
        w.work b (completeLines peer).length rp wp rest := by
  have hbusy := h.writes.busy e hw hc he
  have hturn := h.turn
  rw [if_neg hbusy] at hturn
  obtain ⟨t, wp', rest', hx, htw, hstep, houtputs, hwrites⟩ :=
    writes_go h.writes e ht.plain.2 hw hc he
  obtain ⟨htr, hdelivered, -⟩ := reads_keep h.reads e (StreamWorld.call_ne_read e he hw) hw hx
  have hhanded : t.handed = w.world.handed := by
    rw [StreamWorld.handed, hdelivered, StreamWorld.handed]
  have hout : t.outputs = t.handed.map echoCells := by
    rw [houtputs, h.outputs, hhanded]
  have hreads : Numbered t.reads := by
    rw [(exec_calls hx).1, StreamEvent.startsRead_of_library hc, List.append_nil]
    exact h.readNames
  have hnames : Numbered t.writes := by
    rw [hwrites]
    exact h.writeNames
  have hincoming : t.incoming = w.world.incoming := by
    rw [(exec_bytes hx).1]
    cases e with
    | write | writeReturns | runPosted => rfl
    | read | readReturns | readReady => cases hw
  have hless := writing_spends h e ht hw hc he hx htw hstep houtputs
  rw [EchoWorld.exec, hx, ok_bind]
  cases hstep with
  | completes cb hcall =>
    refine ⟨EchoWorld.msgWriteCallback { w with world := t }, rp, .idle, rest', ?_, ⟨htr, htw, ?_, hout,
      hreads, hnames⟩, by decide, ?_⟩
    · simp only [EchoWorld.react, hcall]
    · show w.posted+1+(if rp = .idle then 0 else 1)+0 = 1
      omega
    · rcases hless with ⟨-, hless⟩ | ⟨hp, -⟩
      · rw [EchoWorld.work, EchoWorld.work]
        show (8*b+1)*((completeLines peer).length-t.handed.length)+4*t.incoming.length+
          8*rest'.length+5*(w.posted+1)+rp.work t.incoming+0 < _
        have hzero : WritePhase.idle.work = 0 := rfl
        rw [hhanded, hincoming]
        omega
      · cases hp
  | proceeds phase hne hcall =>
    refine ⟨{ w with world := t }, rp, wp', rest', react_writing wp' hcall, ⟨htr, htw, ?_, hout,
      hreads, hnames⟩, ?_, ?_⟩
    · rw [if_neg hne]
      exact hturn
    · rcases hless with ⟨hp, -⟩ | ⟨rfl, -⟩
      · exact hp
      · decide
    · rw [EchoWorld.work, EchoWorld.work]
      show (8*b+1)*((completeLines peer).length-t.handed.length)+4*t.incoming.length+
        8*rest'.length+5*w.posted+rp.work t.incoming+wp'.work < _
      rw [hhanded, hincoming]
      rcases hless with ⟨-, hless⟩ | ⟨rfl, hsame, hone⟩
      · omega
      · have hzero : WritePhase.writing.work = 0 := rfl
        omega

/-- A readiness event finds the server waiting and has it read again. -/
theorem ready_spends {w : StreamWorld} (h : w.ReadsAt peer rp) (he : w.Enabled .readReady)
    (hx : w.exec .readReady = .ok t) : rp = .waiting ∧ t.call = .read := by
  obtain ⟨hfree, hpending, -⟩ := he
  rw [h.stream.buffer] at hpending
  have hwaiting : rp = .waiting := by
    cases rp with
    | waiting => rfl
    | reading => exact absurd (h.call.mpr rfl) hfree.1
    | idle => cases hpending
    | posted => cases hpending
  refine ⟨hwaiting, ?_⟩
  subst hwaiting
  obtain ⟨m, hready, -⟩ := msgReadReady_reads h.stream
  rw [StreamWorld.exec, hready, ok_bind] at hx
  obtain rfl := Except.ok.inj hx
  rfl

/-- The run of `postable_read` finds it posted and has the server read again. -/
theorem rerun_spends {w : StreamWorld} (h : w.ReadsAt peer rp)
    (he : w.Enabled (.runPosted .postableRead)) (hx : w.exec (.runPosted .postableRead) = .ok t) :
    rp = .posted ∧ t.call = .read := by
  have hposted : rp = .posted := by
    by_contra hp
    have hcount := List.count_pos_iff.mpr he.2
    rw [h.posted_zero hp] at hcount
    exact Nat.lt_irrefl 0 hcount
  refine ⟨hposted, ?_⟩
  subst hposted
  obtain ⟨cb, hcb⟩ := h.stream.readCb_some (by decide)
  obtain ⟨m, hrun, -⟩ := msgRunPosted_reads h.stream hcb
  rw [StreamWorld.exec, hrun, ok_bind] at hx
  obtain rfl := Except.ok.inj hx
  rfl

theorem eagain_spends {w : StreamWorld} (h : w.ReadsAt peer rp)
    (he : w.Enabled (.readReturns .eagain)) (hx : w.exec (.readReturns .eagain) = .ok t)
    (hstep : MsgReadStep w t rp') : rp = .reading ∧ rp' = .waiting := by
  obtain rfl := h.call.mp he
  obtain ⟨m, hreturns, -⟩ := msgReadReturns_eagain h.stream
  rw [StreamWorld.exec, hreturns, ok_bind] at hx
  obtain rfl := Except.ok.inj hx
  refine ⟨rfl, ?_⟩
  cases hstep with
  | delivers cb msg hcall hdelivered => cases hcall
  | proceeds phase hp hcall hdelivered =>
    cases rp' with
    | waiting => rfl
    | idle => exact absurd rfl hp
    | reading => cases hcall
    | posted => cases hcall

/-- What a step of reading takes in and the phase that it leaves are more than it adds. -/
theorem read_spends (h : w.Echoes peer rp wp rest) (e : StreamEvent) (ht : w.Truthful (.stream e))
    (hr : e.Reading) (hc : e.byClient = false) (he : w.world.Enabled e) (hx : w.world.exec e = .ok t)
    (hat : t.ReadsAt peer rp') (hstep : MsgReadStep w.world t rp') :
    4*t.incoming.length+rp'.work t.incoming <
      4*w.world.incoming.length+rp.work w.world.incoming := by
  have hincoming := (exec_bytes hx).1
  cases e with
  | readReturns r =>
    cases r with
    | bytes d =>
      obtain ⟨-, hne, hprefix, -⟩ := he
      have hpos := List.length_pos_iff.mpr hne
      have hle := hprefix.length_le
      have hlen : t.incoming.length = w.world.incoming.length-d.length := by
        rw [hincoming, List.length_drop]
        rfl
      have hwork := rp'.work_le t.incoming
      omega
    | eagain =>
      obtain ⟨rfl, rfl⟩ := eagain_spends h.reads he hx hstep
      have hnone : w.world.incoming = [] := ht
      rw [hincoming, hnone]
      decide
    | eof | failed => exact hr.elim
  | readReady =>
    obtain ⟨rfl, hcall⟩ := ready_spends h.reads he hx
    obtain rfl := hat.call.mp hcall
    have hsome : w.world.incoming ≠ [] := ht
    have hsame : t.incoming = w.world.incoming := hincoming
    rw [hsame, ReadPhase.work, ReadPhase.work, if_neg hsome]
    exact Nat.lt_succ_self _
  | runPosted f =>
    cases f with
    | postableRead =>
      obtain ⟨rfl, hcall⟩ := rerun_spends h.reads he hx
      obtain rfl := hat.call.mp hcall
      have hsame : t.incoming = w.world.incoming := hincoming
      rw [hsame, ReadPhase.work, ReadPhase.work]
      split_ifs
      · exact Nat.lt_succ_self _
      · exact Nat.lt_add_of_pos_right (by decide)
    | postableTryWrite => exact hr.elim
  | read | write => cases hc
  | writeReturns => exact hr.elim

/-- With a socket that does what it should, every event returns, keeps the round and leaves
less work, if the peer's lines are short and its last one is complete. -/
theorem echo_spends (h : w.Echoes peer rp wp rest)
    (hb : ∀ line ∈ completeLines peer, (echoLine line).length ≤ b)
    (hlines : ∀ line ∈ completeLines peer, 1 ≤ line.length ∧ line.length ≤ 4077)
    (hlast : unfinishedLine peer = []) (e : EchoEvent) (ht : w.Truthful e) (he : w.Enabled e) :
    ∃ u rp₁ wp₁ rest₁, w.exec e = .ok u ∧ u.Echoes peer rp₁ wp₁ rest₁ ∧ wp₁ ≠ .stalled ∧
      u.work b (completeLines peer).length rp₁ wp₁ rest₁ <
        w.work b (completeLines peer).length rp wp rest := by
  have hshort : ∀ line ∈ completeLines peer, line.length ≤ iobufferDefaultCapacity := by
    intro line hline
    exact (hlines line hline).2.trans (by decide)
  cases e with
  | postableRead =>
    obtain ⟨⟨hone, rfl, rfl⟩, t, rp', hx, hon, hexec⟩ := h.posted_read he
    obtain ⟨u, rp₁, wp₁, rest₁, hreact, hu, hstall, hwork⟩ := echo_read_spends hb hlines h hon
    refine ⟨u, rp₁, wp₁, rest₁, hexec.trans hreact, hu, hstall, lt_of_le_of_lt hwork ?_⟩
    have hincoming : t.incoming = w.world.incoming := (exec_bytes hx).1
    have hphase := rp'.work_le w.world.incoming
    rw [EchoWorld.work, hincoming, hone]
    omega
  | stream e =>
    obtain ⟨he, hc⟩ := he
    by_cases hw : e.ofWriting = true
    · exact echo_write_spends h e ht hw hc he
    · have hr := e.reading_of_plain ht.plain.1 hw
      obtain ⟨⟨-, rfl⟩, ⟨t, rp', hx, hon, hexec⟩ | ⟨-, hlong⟩⟩ := h.stream_read hshort e hr hc he
      · obtain ⟨u, rp₁, wp₁, rest₁, hreact, hu, hstall, hwork⟩ := echo_read_spends hb hlines h hon
        refine ⟨u, rp₁, wp₁, rest₁, hexec.trans hreact, hu, hstall, lt_of_le_of_lt hwork ?_⟩
        have hless := read_spends h e ht hr hc he hx hon.reads hon.step
        rw [EchoWorld.work]
        omega
      · rw [hlast] at hlong
        cases hlong

/-- A server that is neither stalled nor waits for a silent peer can go on. -/
theorem echo_goes_on (h : w.Echoes peer rp wp rest) (hstall : wp ≠ .stalled)
    (hwait : rp = .waiting → w.world.incoming ≠ []) : ∃ e, w.Enabled e ∧ w.Truthful e := by
  have hcallr := h.reads.call
  have hcallw := h.writes.call
  cases rp with
  | reading =>
    have hcall := hcallr.mpr rfl
    by_cases hin : w.world.incoming = []
    · exact ⟨.stream (.readReturns .eagain), ⟨hcall, rfl⟩, hin⟩
    · obtain ⟨c, more, hmore⟩ := List.exists_cons_of_ne_nil hin
      obtain ⟨-, iob, hi⟩ := h.reads.stream.busy (by decide)
      have hroom : msgRoom w.world.stream = iobufferDefaultCapacity := by
        rw [msgRoom, hi, Option.map_some, Option.getD_some]
        exact iobufferSpaceLen_empty (h.reads.stream.empty iob hi)
      refine ⟨.stream (.readReturns (.bytes [c])), ⟨⟨hcall, by simp, ?_, ?_⟩, rfl⟩, trivial, trivial⟩
      · rw [hmore]
        exact ⟨more, rfl⟩
      · rw [hroom, List.length_singleton, iobufferDefaultCapacity]
        decide
  | waiting =>
    obtain ⟨-, rfl⟩ := h.alone_reading (by decide)
    exact ⟨.stream .readReady, ⟨⟨⟨fun hc => absurd (hcallr.mp hc) (by decide),
      fun hc => absurd (hcallw.mp hc) (by decide)⟩, h.reads.stream.buffer, h.reads.stream.callback⟩,
      rfl⟩, hwait rfl⟩
  | posted =>
    obtain ⟨-, rfl⟩ := h.alone_reading (by decide)
    have hcount : w.world.posted.count .postableRead = 1 := h.reads.posted
    refine ⟨.stream (.runPosted .postableRead), ⟨⟨⟨fun hc => absurd (hcallr.mp hc) (by decide),
      fun hc => absurd (hcallw.mp hc) (by decide)⟩, ?_⟩, rfl⟩, trivial, trivial⟩
    exact List.count_pos_iff.mp (by omega)
  | idle =>
    have hnoread : w.world.call ≠ .read := fun hc => absurd (hcallr.mp hc) (by decide)
    cases wp with
    | writing =>
      have hsome := List.length_pos_iff.mpr (h.writes.stream.unsent (by decide)).1
      refine ⟨.stream (.writeReturns (.wrote 1)), ⟨⟨hcallw.mpr rfl, Nat.one_pos, ?_⟩, rfl⟩,
        trivial, trivial⟩
      rw [h.writes.stream.output]
      exact hsome
    | posted =>
      have hcount : w.world.posted.count .postableTryWrite = 1 := h.writes.posted
      refine ⟨.stream (.runPosted .postableTryWrite), ⟨⟨⟨hnoread,
        fun hc => absurd (hcallw.mp hc) (by decide)⟩, ?_⟩, rfl⟩, trivial, trivial⟩
      exact List.count_pos_iff.mp (by omega)
    | stalled => exact absurd rfl hstall
    | idle =>
      have hposted : w.posted+0+0 = 1 := h.turn
      exact ⟨.postableRead, ⟨⟨hnoread, fun hc => absurd (hcallw.mp hc) (by decide)⟩, by omega⟩,
        trivial⟩

end spends

end CHttp
