import CHttp.EchoClosing
import CHttp.RankedRuns
import CHttp.VerifyClient

/-! A verifying client and its echo server in one loop: what one side writes the other side
reads, in whatever pieces, while each goes at its own pace. -/
namespace CHttp

/-- Data on its way to the peer, which must have been written before. -/
def wireBytes : List Cell → Res Bytes
  | [] => .ok []
  | none :: _ => .error .indeterminate
  | some c :: cells => do
    let d ← wireBytes cells
    .ok (c :: d)

theorem wireBytes_map (d : Bytes) : wireBytes (d.map some) = .ok d := by
  induction d with
  | nil => rfl
  | cons c d ih => rw [List.map_cons, wireBytes, ih, ok_bind]

/-- A connection: the server's app at its other end, and how many of the bytes written there
the client has read. -/
structure VerifyConnection where
  server : EchoWorld
  taken : ℕ
  deriving DecidableEq, Repr

/-- A client thread, its connection, if there is one, and the server's apps on the connections
that it has closed. -/
structure VerifyWorld (α : Type) where
  thread : VerifyThread α
  connection : Option VerifyConnection
  closed : List EchoWorld
  deriving DecidableEq, Repr

/-- What happens next: the server accepts, in a block that malloc returned; `write` or `read`
returns to the client; or something happens to the server, on the connection or on one that
was closed. -/
inductive VerifyEvent where
  | connect (malloced : TcpStream)
  | write
  | read (d : Bytes)
  | server (e : EchoEvent)
  | left (i : ℕ) (e : EchoEvent)
  deriving DecidableEq, Repr

/-- After the close `read` finds the end of the input, where no call has set `errno` before. -/
def VerifyEvent.EndsUnset (e : VerifyEvent) : Prop :=
  ∃ i, e = .left i (.stream (.readReturns (.eof 0)))

instance (tcp : TcpStream) : Decidable tcp.Idle :=
  decidable_of_iff (tcp.reader.inputBuffer = false ∧ tcp.reader.readCb = false ∧
    tcp.writer.outputBuffer = false ∧ tcp.writer.writeCb = false)
    ⟨fun h => ⟨h.1, h.2.1, h.2.2.1, h.2.2.2⟩,
      fun h => ⟨h.inputBuffer, h.readCb, h.outputBuffer, h.writeCb⟩⟩

/-- The buffer that `write` was given. -/
def VerifyPoint.sendIob : VerifyPoint → Option IOBuffer
  | .writing _ sendIob => some sendIob
  | _ => none

/-- The buffer that `read` was given. -/
def VerifyPoint.readIob : VerifyPoint → Option IOBuffer
  | .reading _ iob => some iob
  | _ => none

namespace VerifyWorld

variable {α : Type} (clock : ℕ → α)

/-- The client has closed the connection when it is about to make another one, or at its end. -/
def after (closed : List EchoWorld) (thread : VerifyThread α) (c : VerifyConnection) :
    VerifyWorld α :=
  match thread.point with
  | .writing _ _ | .reading _ _ => ⟨thread, some c, closed⟩
  | .connecting | .returned => ⟨thread, none, closed ++ [c.server]⟩

def exec (w : VerifyWorld α) : VerifyEvent → Res (VerifyWorld α)
  | .connect malloced => do
    let m ← msgStreamInit ℕ malloced
    let thread ← w.thread.connected
    .ok (after w.closed thread ⟨echoAppRun m [], 0⟩)
  | .write =>
    match w.thread.point, w.connection with
    | .writing _ sendIob, some c => do
      let d ← wireBytes (iobufferData sendIob)
      let thread ← w.thread.writeReturns clock (iobufferDataLen sendIob)
      .ok (after w.closed thread { c with server := c.server.hear d })
    | _, _ => .error .nullPointer
  | .read d =>
    match w.connection with
    | some c => do
      let thread ← w.thread.readReturns clock (.bytes d)
      .ok (after w.closed thread { c with taken := c.taken+d.length })
    | none => .error .nullPointer
  | .server e =>
    match w.connection with
    | some c => do
      let server ← c.server.exec e
      .ok { w with connection := some { c with server := server } }
    | none => .error .nullPointer
  | .left i e =>
    match w.closed[i]? with
    | some app => do
      let app ← app.exec e
      .ok { w with closed := w.closed.set i app }
    | none => .error .nullPointer

/-- `write` blocks until it has taken all of a request. `read` delivers the next bytes that
the server wrote, as many as there is room for at most. On the server's side `read` and
`write` return positive counts or EAGAIN, and once the connection is closed `read` finds its
end. -/
def Enabled (w : VerifyWorld α) : VerifyEvent → Prop
  | .connect malloced => w.thread.point = .connecting ∧ malloced.Idle
  | .write => w.thread.point.sendIob.isSome = true
  | .read d => ∃ iob ∈ w.thread.point.readIob, ∃ c ∈ w.connection, d ≠ [] ∧
      d.map some <+: c.server.world.written.drop c.taken ∧ (d.length : ℤ) ≤ iobufferSpaceLen iob
  | .server e => ∃ c ∈ w.connection, c.server.Enabled e ∧ e.Plain
  | .left i e => ∃ app ∈ w.closed[i]?, app.Enabled e ∧ e.Parting

/-- The server's socket reports what is there. -/
def Truthful (w : VerifyWorld α) : VerifyEvent → Prop
  | .connect _ | .write | .read _ => True
  | .server e => ∀ c ∈ w.connection, c.server.Truthful e
  | .left i e => ∀ app ∈ w.closed[i]?, app.TruthfulEnd e

instance decidableEnabled (w : VerifyWorld α) (e : VerifyEvent) : Decidable (w.Enabled e) :=
  match e with
  | .connect malloced => inferInstanceAs (Decidable (w.thread.point = .connecting ∧ malloced.Idle))
  | .write => inferInstanceAs (Decidable (w.thread.point.sendIob.isSome = true))
  | .read d => inferInstanceAs (Decidable (∃ iob ∈ w.thread.point.readIob, ∃ c ∈ w.connection,
      d ≠ [] ∧ d.map some <+: c.server.world.written.drop c.taken ∧
        (d.length : ℤ) ≤ iobufferSpaceLen iob))
  | .server e => inferInstanceAs (Decidable (∃ c ∈ w.connection, c.server.Enabled e ∧ e.Plain))
  | .left i e => inferInstanceAs (Decidable (∃ app ∈ w.closed[i]?, app.Enabled e ∧ e.Parting))

instance decidableTruthful (w : VerifyWorld α) (e : VerifyEvent) : Decidable (w.Truthful e) :=
  match e with
  | .connect _ | .write | .read _ => inferInstanceAs (Decidable True)
  | .server e => inferInstanceAs (Decidable (∀ c ∈ w.connection, c.server.Truthful e))
  | .left i e => inferInstanceAs (Decidable (∀ app ∈ w.closed[i]?, app.TruthfulEnd e))

end VerifyWorld

def verifyMachine {α : Type} (clock : ℕ → α) : Machine (VerifyWorld α) VerifyEvent Fault :=
  ⟨VerifyWorld.Enabled, VerifyWorld.exec clock⟩

/-- The same with a socket that reports what is there. -/
def truthfulMachine {α : Type} (clock : ℕ → α) : Machine (VerifyWorld α) VerifyEvent Fault :=
  ⟨fun w e => w.Enabled e ∧ w.Truthful e, VerifyWorld.exec clock⟩

instance {α : Type} (clock : ℕ → α) (w : VerifyWorld α) (e : VerifyEvent) :
    Decidable ((verifyMachine clock).enabled w e) :=
  inferInstanceAs (Decidable (w.Enabled e))

instance {α : Type} (clock : ℕ → α) (w : VerifyWorld α) (e : VerifyEvent) :
    Decidable ((truthfulMachine clock).enabled w e) :=
  inferInstanceAs (Decidable (w.Enabled e ∧ w.Truthful e))

/-- Where the loop stands: connection `k`, the `n` round trips that are over on it, how far
the server is, and the part of an answer that the client has read. -/
inductive VerifyStage where
  | connecting (k : ℕ)
  | writing (k n : ℕ) (c : VerifyConnection) (rp : ReadPhase) (wp : WritePhase) (rest : List Cell)
  | reading (k n : ℕ) (c : VerifyConnection) (rp : ReadPhase) (wp : WritePhase) (rest : List Cell)
      (part : Bytes)
  | returned

/-- The thread is in the `read` of an answer, of which it has a part. -/
structure VerifyThread.ReadsAnswer {α : Type} (t : VerifyThread α) (text part : Bytes) : Prop where
  point : ∃ request iob, t.point = .reading request iob ∧ request.Says text ∧
    iob.Holds iobufferDefaultCapacity []
  starts : part <+: serverResponse text
  parser : t.parser.msg.Says part

/-- A round trip under way, with `m` requests sent. -/
structure VerifyWorld.Serves {α : Type} (w : VerifyWorld α) (p : VerifyPlan) (clock : ℕ → α)
    (k n m : ℕ) (c : VerifyConnection) (rp : ReadPhase) (wp : WritePhase) (rest : List Cell) :
    Prop where
  connection_lt : k < p.connections
  round_lt : n < p.rounds
  counts : w.thread.Counts p clock k (k*p.rounds+n)
  onRound : w.thread.OnRound n
  list : w.thread.stream.inputMsgList = []
  connection : w.connection = some c
  echoes : c.server.Echoes (p.sent k m) rp wp rest
  running : c.server.Running
  taken_le : c.taken ≤ c.server.world.written.length
  closed : w.closed.length = k

/-- What holds at each stage. All that the client has not read of the answers is the one to
the request it waits for, and connection `k` comes after `k` that were closed. -/
def VerifyWorld.At {α : Type} (w : VerifyWorld α) (p : VerifyPlan) (clock : ℕ → α) :
    VerifyStage → Prop
  | .connecting k => k < p.connections ∧ w.thread.Counts p clock k (k*p.rounds) ∧
      w.thread.point = .connecting ∧ w.thread.parser.msg.Says [] ∧ w.connection = none ∧
      w.closed.length = k
  | .writing k n c rp wp rest => w.Serves p clock k n n c rp wp rest ∧
      w.thread.WritesText (p.text k n) ∧ w.thread.parser.msg.Says [] ∧
      c.taken = (p.answers k n).length
  | .reading k n c rp wp rest part => w.Serves p clock k n (n+1) c rp wp rest ∧
      w.thread.ReadsAnswer (p.text k n) part ∧ c.taken = (p.answers k n).length+part.length
  | .returned => w.thread.Counts p clock p.connections (p.connections*p.rounds) ∧
      w.thread.point = .returned ∧ w.connection = none ∧ w.closed.length = p.connections

/-- The server has not run into EAGAIN while writing. -/
def VerifyStage.Live : VerifyStage → Prop
  | .writing _ _ _ _ wp _ | .reading _ _ _ _ wp _ _ => wp ≠ .stalled
  | .connecting _ | .returned => True

/-- The work left. A round trip is worth 1000 steps. -/
def VerifyStage.rank (p : VerifyPlan) : VerifyStage → ℕ
  | .connecting k => 1000*(p.rounds*p.connections-k*p.rounds)+10
  | .writing k n c rp wp rest =>
    1000*(p.rounds*p.connections-(k*p.rounds+n))+c.server.work 77 n rp wp rest
  | .reading k n c rp wp rest _ =>
    1000*(p.rounds*p.connections-(k*p.rounds+(n+1)))+20+c.server.work 77 (n+1) rp wp rest+
      ((p.answers k (n+1)).length-c.taken)
  | .returned => 0

section lines

variable (p : VerifyPlan) {k m : ℕ}

/-- What the server needs to know about the requests. -/
structure VerifyPlan.LinesFit (p : VerifyPlan) (k m : ℕ) : Prop where
  lines : completeLines (p.sent k m) = p.texts k m
  last : unfinishedLine (p.sent k m) = []
  short : ∀ line ∈ completeLines (p.sent k m), 1 ≤ line.length ∧ line.length ≤ 4077
  price : ∀ line ∈ completeLines (p.sent k m), (echoLine line).length ≤ 77

theorem echoLine_length (line : Bytes) : (echoLine line).length = line.length+18 := by
  rw [echoLine, List.length_append, serverResponse_length, List.length_singleton]

theorem VerifyPlan.linesFit (hk : k < p.connections) (hm : m ≤ p.rounds) : p.LinesFit k m := by
  obtain ⟨hlines, hlast⟩ := p.lines_sent hk hm
  have hfits (line : Bytes) (hline : line ∈ completeLines (p.sent k m)) :
      VerifyPlan.TextFits line := by
    rw [hlines] at hline
    exact p.texts_fit hk hm line hline
  refine ⟨hlines, hlast, ?_, ?_⟩
  · intro line hline
    exact ⟨(hfits line hline).pos, (hfits line hline).le.trans (by decide)⟩
  · intro line hline
    have hle := (hfits line hline).le
    rw [echoLine_length]
    omega

/-- The bytes behind the part that was read are the next ones of the same line. -/
theorem part_append {written : List Cell} {pre line part d : Bytes}
    (hwritten : written <+: (pre ++ line).map some) (hpart : part <+: line)
    (hd : d.map some <+: written.drop (pre.length+part.length)) : part ++ d <+: line := by
  have hdrop : d.map some <+: (line.drop part.length).map some := by
    calc
      d.map some <+: written.drop (pre.length+part.length) := hd
      _ <+: ((pre ++ line).map some).drop (pre.length+part.length) := hwritten.drop _
      _ = (line.drop part.length).map some := by
        rw [← List.map_drop, List.drop_length_add_append]
  rw [List.prefix_map_iff_of_injective (Option.some_injective _)] at hdrop
  rw [List.prefix_append_drop hpart]
  exact (List.prefix_append_right_inj part).mpr hdrop

end lines

namespace VerifyWorld

variable {α : Type} {p : VerifyPlan} {clock : ℕ → α} {w : VerifyWorld α} {k n m : ℕ}
  {c : VerifyConnection} {rp : ReadPhase} {wp : WritePhase} {rest : List Cell} {part : Bytes}

/-- The apps on the closed connections, each with so much work left at most. -/
def LeftBehind (w : VerifyWorld α) (p : VerifyPlan) (ranks : ℕ → ℕ) : Prop :=
  ∀ (i : ℕ) (app : EchoWorld), w.closed[i]? = some app → app.Leaves (p.sent i p.rounds) (ranks i)

/-- What is left to do on the closed connections. -/
def leftWork (w : VerifyWorld α) (ranks : ℕ → ℕ) : ℕ := ∑ i ∈ Finset.range w.closed.length, ranks i

/-- From a stage an event leads to a stage, and may close a connection. With a truthful socket it
leaves less work. -/
def Steps (w : VerifyWorld α) (p : VerifyPlan) (clock : ℕ → α) (s : VerifyStage) (e : VerifyEvent) :
    Prop :=
  ∃ t s', ∃ more : Option (EchoWorld × ℕ), w.exec clock e = .ok t ∧ t.At p clock s' ∧
    t.closed = w.closed ++ (more.map Prod.fst).toList ∧
    (∀ x ∈ more, x.1.Leaves (p.sent w.closed.length p.rounds) x.2) ∧
    (s.Live → w.Truthful e → s'.Live ∧ s'.rank p+(more.map Prod.snd).getD 0 < s.rank p)

theorem Steps.of_same {s : VerifyStage} {e : VerifyEvent} (t : VerifyWorld α) (s' : VerifyStage)
    (hx : w.exec clock e = .ok t) (ht : t.At p clock s') (hclosed : t.closed = w.closed)
    (hless : s.Live → w.Truthful e → s'.Live ∧ s'.rank p < s.rank p) : w.Steps p clock s e := by
  refine ⟨t, s', none, hx, ht, hclosed.trans (List.append_nil _).symm,
    fun x hx => absurd hx (Option.not_mem_none x), ?_⟩
  intro hlive htruth
  rw [Option.map_none, Option.getD_none, Nat.add_zero]
  exact hless hlive htruth

theorem Serves.fits (h : w.Serves p clock k n m c rp wp rest) (hm : m ≤ n+1) : p.LinesFit k m :=
  p.linesFit h.connection_lt (hm.trans h.round_lt)

/-- The server is a step further. -/
theorem Serves.server (h : w.Serves p clock k n m c rp wp rest) {u : EchoWorld} {rp' : ReadPhase}
    {wp' : WritePhase} {rest' : List Cell} (hu : u.Echoes (p.sent k m) rp' wp' rest')
    (hrunning : u.Running) (hwritten : c.server.world.written <+: u.world.written) :
    Serves { w with connection := some { c with server := u } } p clock k n m
      { c with server := u } rp' wp' rest' :=
  ⟨h.connection_lt, h.round_lt, h.counts, h.onRound, h.list, rfl, hu, hrunning,
    h.taken_le.trans hwritten.length_le, h.closed⟩

/-- An event at the server, whether the client is in `write` or in `read`. -/
theorem server_step (h : w.Serves p clock k n m c rp wp rest) (hm : m ≤ n+1) (e : EchoEvent)
    (he : w.Enabled (.server e)) :
    ∃ u rp' wp' rest',
      w.exec clock (.server e) = .ok { w with connection := some { c with server := u } } ∧
      Serves { w with connection := some { c with server := u } } p clock k n m
        { c with server := u } rp' wp' rest' ∧
      (w.Truthful (.server e) → wp' ≠ .stalled ∧
        u.work 77 m rp' wp' rest' < c.server.work 77 m rp wp rest) := by
  have hfits := h.fits hm
  have hcount : (completeLines (p.sent k m)).length = m := by
    rw [hfits.lines, p.length_texts]
  obtain ⟨c', hc', he, hplain⟩ := he
  obtain rfl := Option.some.inj (h.connection.symm.trans hc')
  have hexec {u : EchoWorld} (hx : c.server.exec e = .ok u) :
      w.exec clock (.server e) = .ok { w with connection := some { c with server := u } } := by
    simp only [exec, h.connection, hx, ok_bind]
  have hserves {u : EchoWorld} {rp' : ReadPhase} {wp' : WritePhase} {rest' : List Cell}
      (hx : c.server.exec e = .ok u) (hu : u.Echoes (p.sent k m) rp' wp' rest') :=
    h.server hu (h.echoes.stays_running h.running e hplain he hx) (echo_bytes hx).2
  by_cases ht : c.server.Truthful e
  · obtain ⟨u, rp', wp', rest', hx, hu, hlive, hwork⟩ :=
      echo_spends h.echoes hfits.price hfits.short hfits.last e ht he
    rw [hcount] at hwork
    exact ⟨u, rp', wp', rest', hexec hx, hserves hx hu, fun _ => ⟨hlive, hwork⟩⟩
  · rcases echo_go h.echoes hfits.short e hplain he with ⟨u, rp', wp', rest', hx, hu⟩ | ⟨-, hlong⟩
    · exact ⟨u, rp', wp', rest', hexec hx, hserves hx hu,
        fun htruth => absurd (htruth c h.connection) ht⟩
    · rw [hfits.last] at hlong
      cases hlong

theorem connect_step (h : w.At p clock (.connecting k)) (malloced : TcpStream)
    (he : w.Enabled (.connect malloced)) : w.Steps p clock (.connecting k) (.connect malloced) := by
  obtain ⟨hk, hcounts, -, hparser, -, hclosed⟩ := h
  obtain ⟨-, hidle⟩ := he
  obtain ⟨m, hinit⟩ : ∃ m, msgStreamInit ℕ malloced = .ok m := by
    obtain ⟨mp, hnew, -⟩ := newlineMsgParserNew_parsed
    exact ⟨_, by rw [msgStreamInit, hnew, ok_bind]⟩
  let t₀ : VerifyThread α := { w.thread with
    stream := mstreamNew
    ctx := verifyCtxResetConnectionRoundTripCount w.thread.ctx
    j := 0 }
  have hcounts₀ : t₀.Counts p clock k (k*p.rounds+0) :=
    ⟨hcounts.ident, hcounts.maxRounds, hcounts.maxConnections, hcounts.connection, hcounts.total,
      hcounts.times, hcounts.printed⟩
  obtain ⟨t, hnext, hcounts', hon, hwrites, hstream, hparser'⟩ :=
    VerifyThread.nextRound_writes hcounts₀ hk p.roundsPos rfl rfl
  obtain ⟨request, iob, hpoint, hrequest⟩ := hwrites
  have hafter : after w.closed t ⟨echoAppRun m [], 0⟩ = ⟨t, some ⟨echoAppRun m [], 0⟩, w.closed⟩ := by
    simp only [after, hpoint]
  refine Steps.of_same ⟨t, some ⟨echoAppRun m [], 0⟩, w.closed⟩
    (.writing k 0 ⟨echoAppRun m [], 0⟩ .idle .idle []) ?_
    ⟨⟨hk, p.roundsPos, hcounts', hon, ?_, rfl, echoAppRun_echoes malloced hidle m hinit [],
      ⟨rfl, rfl⟩, Nat.zero_le _, hclosed⟩, ⟨request, iob, hpoint, hrequest⟩, ?_, rfl⟩ rfl ?_
  · rw [exec, hinit, ok_bind, VerifyThread.connected, hnext, ok_bind, hafter]
  · rw [hstream]
    rfl
  · rw [hparser']
    exact hparser
  · intro _ _
    refine ⟨(by decide : WritePhase.idle ≠ .stalled), ?_⟩
    show 1000*(p.rounds*p.connections-(k*p.rounds+0))+5 < 1000*(p.rounds*p.connections-k*p.rounds)+10
    omega

/-- One more line on its way to the server, and the price of its answer. -/
theorem hear_work (h : c.server.Echoes (p.sent k n) rp wp rest) (hfits : p.LinesFit k n) (d : Bytes) :
    (c.server.hear d).work 77 (n+1) rp wp rest ≤
      c.server.work 77 n rp wp rest+617+4*d.length := by
  have hhanded : c.server.world.handed.length ≤ n := by
    have hle := h.handed_le
    rwa [hfits.lines, p.length_texts] at hle
  have hphase : rp.work (c.server.world.incoming ++ d) ≤ rp.work c.server.world.incoming := by
    cases rp with
    | reading =>
      rw [ReadPhase.work, ReadPhase.work]
      split_ifs with hlong hshort
      · exact le_rfl
      · exact absurd (List.append_eq_nil_iff.mp hlong).1 hshort
      · exact Nat.zero_le _
      · exact le_rfl
    | idle | waiting | posted => exact le_rfl
  have hone : n+1-c.server.world.handed.length = n-c.server.world.handed.length+1 := by omega
  rw [EchoWorld.work, EchoWorld.work]
  show (8*77+1)*(n+1-c.server.world.handed.length)+4*(c.server.world.incoming ++ d).length+
    8*rest.length+5*c.server.posted+rp.work (c.server.world.incoming ++ d)+wp.work ≤ _
  rw [hone, List.length_append]
  omega

theorem write_step (h : w.At p clock (.writing k n c rp wp rest)) :
    w.Steps p clock (.writing k n c rp wp rest) .write := by
  obtain ⟨hserves, ⟨request, sendIob, hpoint, hrequest, hsend⟩, hparser, htaken⟩ := h
  have hfits := hserves.fits (Nat.le_succ n)
  have htext := p.text_fits hserves.connection_lt hserves.round_lt
  obtain ⟨iob, hnew, hiob⟩ := iobufferNew_holdsText
  let d := p.text k n ++ [10]
  let t : VerifyThread α := { w.thread with point := .reading request iob }
  let c' : VerifyConnection := { c with server := c.server.hear d }
  have hwire : wireBytes (iobufferData sendIob) = .ok d := by
    rw [hsend.holds.data, wireBytes_map]
  have hthread : w.thread.writeReturns clock (iobufferDataLen sendIob) = .ok t := by
    have hall : mstreamWriteReturns sendIob (iobufferDataLen sendIob) = .ok () :=
      if_neg (not_not_intro rfl)
    have hturn : mstreamReadTurn w.thread.stream = .ok (.inr iob) := by
      simp only [mstreamReadTurn, hserves.list, hnew, ok_bind]
    simp only [VerifyThread.writeReturns, hpoint, hall, ok_bind, VerifyThread.readTurn, hturn]
    rfl
  have hechoes : c'.server.Echoes (p.sent k (n+1)) rp wp rest := by
    rw [p.sent_succ]
    exact hserves.echoes.hear d
  refine Steps.of_same ⟨t, some c', w.closed⟩ (.reading k n c' rp wp rest []) ?_
    ⟨⟨hserves.connection_lt, hserves.round_lt, hserves.counts.congr rfl rfl rfl,
      ⟨hserves.onRound.counter, hserves.onRound.number⟩, hserves.list, rfl, hechoes,
      ⟨hserves.running.doneCb, hserves.running.done⟩, hserves.taken_le, hserves.closed⟩,
    ⟨⟨request, iob, rfl, hrequest, hiob.holds⟩, List.nil_prefix, hparser⟩, ?_⟩ rfl ?_
  · simp only [exec, hpoint, hserves.connection, hwire, ok_bind, hthread]
    rfl
  · rw [List.length_nil]
    exact htaken
  · intro hlive _
    refine ⟨hlive, ?_⟩
    have hwork := hear_work hserves.echoes hfits d
    have hdone := p.done_lt hserves.connection_lt hserves.round_lt
    have hlen : d.length ≤ 60 := by
      have hle := htext.le
      rw [List.length_append, List.length_singleton]
      omega
    have huntaken : (p.answers k (n+1)).length-c.taken ≤ 77 := by
      have hle := htext.le
      rw [p.answers_succ, List.length_append, htaken, Nat.add_sub_cancel_left, echoLine_length]
      omega
    show 1000*(p.rounds*p.connections-(k*p.rounds+(n+1)))+20+
      (c.server.hear d).work 77 (n+1) rp wp rest+((p.answers k (n+1)).length-c.taken) <
        1000*(p.rounds*p.connections-(k*p.rounds+n))+c.server.work 77 n rp wp rest
    omega

/-- The bytes that `read` delivers continue the answer. -/
theorem read_continues (h : w.Serves p clock k n (n+1) c rp wp rest)
    (hpart : part <+: serverResponse (p.text k n)) (htaken : c.taken = (p.answers k n).length+part.length)
    {d : Bytes} (hd : d.map some <+: c.server.world.written.drop c.taken) :
    part ++ d <+: serverResponse (p.text k n) ++ [10] := by
  have hwritten := h.echoes.written_prefix
  rw [(h.fits le_rfl).lines] at hwritten
  have hlast : c.server.world.written <+: (p.answers k n ++ echoLine (p.text k n)).map some := by
    rw [← p.answers_succ]
    exact hwritten
  rw [htaken] at hd
  exact part_append hlast (hpart.trans (List.prefix_append _ _)) hd

section read

variable {d : Bytes} {request response : NewLineMsg} {stream : MStream} {parser : NewLineMsgParser}
  {t : VerifyThread α}

theorem Serves.read_exec (h : w.Serves p clock k n m c rp wp rest) {iob : IOBuffer}
    (hpoint : w.thread.point = .reading request iob)
    (hreturns : mstreamReadReturns ⟨[]⟩ w.thread.parser iob (.bytes d) = .ok (stream, parser)) :
    w.exec clock (.read d) =
      ({ w.thread with stream := stream, parser := parser } : VerifyThread α).readTurn clock request >>=
        fun t => .ok (after w.closed t { c with taken := c.taken+d.length }) := by
  have hstream : w.thread.stream = ⟨[]⟩ := by
    rw [← h.list]
  simp only [exec, h.connection, VerifyThread.readReturns, hpoint, hstream, hreturns, ok_bind]

/-- The answer is still incomplete: the thread calls `read` again. -/
theorem read_part_step (h : w.Serves p clock k n (n+1) c rp wp rest)
    (hexec : w.exec clock (.read d) =
      ({ w.thread with stream := stream, parser := parser } : VerifyThread α).readTurn clock request >>=
        fun t => .ok (after w.closed t { c with taken := c.taken+d.length }))
    (hrequest : request.Says (p.text k n)) (htaken : c.taken = (p.answers k n).length+part.length)
    (htaken_le : c.taken+d.length ≤ c.server.world.written.length) (hne : d ≠ [])
    (hmore : part ++ d <+: serverResponse (p.text k n)) (hlist : stream.inputMsgList = [])
    (hparser : parser.msg.Says (part ++ d)) :
    w.Steps p clock (.reading k n c rp wp rest part) (.read d) := by
  obtain ⟨iob, hnew, hiob⟩ := iobufferNew_holdsText
  let t₁ : VerifyThread α := { w.thread with stream := stream, parser := parser }
  let t : VerifyThread α := { t₁ with point := .reading request iob }
  let c' : VerifyConnection := { c with taken := c.taken+d.length }
  have hturn : t₁.readTurn clock request = .ok t := by
    have hloop : mstreamReadTurn stream = .ok (.inr iob) := by
      simp only [mstreamReadTurn, hlist, hnew, ok_bind]
    simp only [VerifyThread.readTurn, t₁, hloop, ok_bind]
    rfl
  refine Steps.of_same ⟨t, some c', w.closed⟩ (.reading k n c' rp wp rest (part ++ d)) ?_
    ⟨⟨h.connection_lt, h.round_lt, h.counts.congr rfl rfl rfl, ⟨h.onRound.counter, h.onRound.number⟩,
      hlist, rfl, h.echoes, h.running, htaken_le, h.closed⟩,
    ⟨⟨request, iob, rfl, hrequest, hiob.holds⟩, hmore, hparser⟩, ?_⟩ rfl ?_
  · rw [hexec, hturn, ok_bind]
    rfl
  · show c.taken+d.length = _
    rw [List.length_append, htaken]
    omega
  · intro hlive _
    refine ⟨hlive, ?_⟩
    have hpos := List.length_pos_iff.mpr hne
    have huntaken : c.taken+d.length < (p.answers k (n+1)).length := by
      have hlen := hmore.length_le
      rw [List.length_append, serverResponse_length] at hlen
      rw [p.answers_succ, List.length_append, echoLine_length, htaken]
      omega
    show 1000*(p.rounds*p.connections-(k*p.rounds+(n+1)))+20+c.server.work 77 (n+1) rp wp rest+
        ((p.answers k (n+1)).length-(c.taken+d.length)) <
      1000*(p.rounds*p.connections-(k*p.rounds+(n+1)))+20+c.server.work 77 (n+1) rp wp rest+
        ((p.answers k (n+1)).length-c.taken)
    omega

/-- The answer ends a round, and there is another one on the connection. -/
theorem next_round_step (h : w.Serves p clock k n (n+1) c rp wp rest)
    (hexec : w.exec clock (.read d) = .ok (after w.closed t { c with taken := c.taken+d.length }))
    (htaken_le : c.taken+d.length ≤ c.server.world.written.length)
    (hended : c.taken+d.length = (p.answers k (n+1)).length) (hn : n+1 < p.rounds)
    (hcounts : t.Counts p clock k (k*p.rounds+(n+1))) (hon : t.OnRound (n+1))
    (hwrites : t.WritesText (p.text k (n+1))) (hlist : t.stream.inputMsgList = [])
    (hparser : t.parser.msg.Says []) :
    w.Steps p clock (.reading k n c rp wp rest part) (.read d) := by
  obtain ⟨request, sendIob, hpoint, hrequest⟩ := hwrites
  let c' : VerifyConnection := { c with taken := c.taken+d.length }
  have hafter : after w.closed t c' = ⟨t, some c', w.closed⟩ := by
    simp only [after, hpoint]
  refine Steps.of_same ⟨t, some c', w.closed⟩ (.writing k (n+1) c' rp wp rest) ?_
    ⟨⟨h.connection_lt, hn, hcounts, hon, hlist, rfl, h.echoes, h.running, htaken_le, h.closed⟩,
    ⟨request, sendIob, hpoint, hrequest⟩, hparser, hended⟩ rfl ?_
  · rw [hexec, hafter]
  · intro hlive _
    refine ⟨hlive, ?_⟩
    show 1000*(p.rounds*p.connections-(k*p.rounds+(n+1)))+c.server.work 77 (n+1) rp wp rest <
      1000*(p.rounds*p.connections-(k*p.rounds+(n+1)))+20+c.server.work 77 (n+1) rp wp rest+
        ((p.answers k (n+1)).length-c.taken)
    omega

/-- After the last answer of a connection the server has answered all requests. -/
theorem Serves.leaves (h : w.Serves p clock k n (n+1) c rp wp rest) (hn : n+1 = p.rounds)
    (hread : (p.answers k (n+1)).length ≤ c.server.world.written.length) :
    ∀ x ∈ some (c.server, c.server.partingWork rp),
      x.1.Leaves (p.sent w.closed.length p.rounds) x.2 := by
  intro x hx
  obtain rfl := Option.some.inj hx
  have hclosing : c.server.Closing (p.sent k (n+1)) rp := by
    apply h.echoes.closing h.running
    rw [(h.fits le_rfl).lines]
    exact hread
  rw [h.closed, ← hn]
  exact .inl ⟨rp, hclosing, rfl⟩

/-- The answer ends the last round of a connection, and the thread closes it. -/
theorem last_round_step (h : w.Serves p clock k n (n+1) c rp wp rest)
    (hexec : w.exec clock (.read d) = .ok (after w.closed t { c with taken := c.taken+d.length }))
    (htaken_le : c.taken+d.length ≤ c.server.world.written.length)
    (hended : c.taken+d.length = (p.answers k (n+1)).length) (hn : n+1 = p.rounds)
    (hcounts : t.Counts p clock (k+1) ((k+1)*p.rounds))
    (hpoint : t.point = if k+1 < p.connections then .connecting else .returned)
    (hparser : t.parser.msg.Says []) :
    w.Steps p clock (.reading k n c rp wp rest part) (.read d) := by
  have hmore := h.leaves hn (hended ▸ htaken_le)
  have hwork := c.server.partingWork_le 77 (n+1) rp wp rest
  have hlength : (w.closed ++ [c.server]).length = k+1 := by
    rw [List.length_append, h.closed, List.length_singleton]
  have hexec' (hleft : t.point = .connecting ∨ t.point = .returned) :
      w.exec clock (.read d) = .ok ⟨t, none, w.closed ++ [c.server]⟩ := by
    rcases hleft with hconnecting | hreturned
    · simp only [hexec, after, hconnecting]
    · simp only [hexec, after, hreturned]
  by_cases hk : k+1 < p.connections
  · rw [if_pos hk] at hpoint
    refine ⟨⟨t, none, w.closed ++ [c.server]⟩, .connecting (k+1), some (c.server, _),
      hexec' (Or.inl hpoint), ⟨hk, hcounts, hpoint, hparser, rfl, hlength⟩, rfl, hmore,
      fun _ _ => ⟨trivial, ?_⟩⟩
    have hthen : k*p.rounds+(n+1) = (k+1)*p.rounds := by
      rw [hn, Nat.succ_mul]
    show 1000*(p.rounds*p.connections-(k+1)*p.rounds)+10+c.server.partingWork rp <
      1000*(p.rounds*p.connections-(k*p.rounds+(n+1)))+20+c.server.work 77 (n+1) rp wp rest+
        ((p.answers k (n+1)).length-c.taken)
    rw [hthen]
    omega
  · rw [if_neg hk] at hpoint
    have hconnections : k+1 = p.connections := by
      have hlt := h.connection_lt
      omega
    rw [hconnections] at hcounts hlength
    refine ⟨⟨t, none, w.closed ++ [c.server]⟩, .returned, some (c.server, _),
      hexec' (Or.inr hpoint), ⟨hcounts, hpoint, rfl, hlength⟩, rfl, hmore,
      fun _ _ => ⟨trivial, ?_⟩⟩
    show 0+c.server.partingWork rp < _+20+c.server.work 77 (n+1) rp wp rest+_
    omega

/-- The answer is there, and it is the right one. -/
theorem read_whole_step (h : w.Serves p clock k n (n+1) c rp wp rest)
    (hexec : w.exec clock (.read d) =
      ({ w.thread with stream := stream, parser := parser } : VerifyThread α).readTurn clock request >>=
        fun t => .ok (after w.closed t { c with taken := c.taken+d.length }))
    (hrequest : request.Says (p.text k n)) (htaken : c.taken = (p.answers k n).length+part.length)
    (htaken_le : c.taken+d.length ≤ c.server.world.written.length)
    (hall : part ++ d = serverResponse (p.text k n) ++ [10]) (hlist : stream.inputMsgList = [response])
    (hresponse : response.Says (serverResponse (p.text k n))) (hparser : parser.msg.Says []) :
    w.Steps p clock (.reading k n c rp wp rest part) (.read d) := by
  let t₁ : VerifyThread α := { w.thread with stream := stream, parser := parser }
  let t₂ : VerifyThread α := { t₁ with stream := ⟨[]⟩ }
  have hturn : t₁.readTurn clock request = t₂.endRound clock request response := by
    have hloop : mstreamReadTurn stream = .ok (.inl (response, ⟨[]⟩)) := by
      simp only [mstreamReadTurn, hlist]
    simp only [VerifyThread.readTurn, t₁, hloop, ok_bind]
    rfl
  have hcounts : t₂.Counts p clock k (k*p.rounds+n) := h.counts.congr rfl rfl rfl
  have hon : t₂.OnRound n := ⟨h.onRound.counter, h.onRound.number⟩
  obtain ⟨t, hend, hsame, hcases⟩ :=
    VerifyThread.endRound_goes_on hcounts hon h.connection_lt h.round_lt hrequest hresponse
  have hexec' : w.exec clock (.read d) = .ok (after w.closed t { c with taken := c.taken+d.length }) := by
    rw [hexec, hturn, hend, ok_bind]
  have hparser' : t.parser.msg.Says [] := by
    rw [hsame]
    exact hparser
  have hended : c.taken+d.length = (p.answers k (n+1)).length := by
    have hlen := congrArg List.length hall
    rw [List.length_append, List.length_append, List.length_singleton, serverResponse_length] at hlen
    rw [p.answers_succ, List.length_append, echoLine_length, htaken]
    omega
  rcases hcases with ⟨hlt, hcounts', hon', hwrites, hstream⟩ | ⟨hlastRound, hcounts', hpoint⟩
  · have hlist' : t.stream.inputMsgList = [] := by
      rw [hstream]
    exact next_round_step h hexec' htaken_le hended hlt hcounts' hon' hwrites hlist' hparser'
  · exact last_round_step h hexec' htaken_le hended hlastRound hcounts' hpoint hparser'

theorem read_step (h : w.At p clock (.reading k n c rp wp rest part)) (d : Bytes)
    (he : w.Enabled (.read d)) : w.Steps p clock (.reading k n c rp wp rest part) (.read d) := by
  obtain ⟨hserves, ⟨⟨request, iob, hpoint, hrequest, hiob⟩, hpart, hparser⟩, htaken⟩ := h
  obtain ⟨iob', hiob', c', hc', hne, hnext, hroom⟩ := he
  obtain rfl := Option.some.inj (hserves.connection.symm.trans hc')
  rw [hpoint] at hiob'
  obtain rfl := Option.some.inj hiob'
  rw [iobufferSpaceLen_empty hiob] at hroom
  have htext := p.text_fits hserves.connection_lt hserves.round_lt
  have hlength := serverResponse_length (p.text k n)
  have hle := htext.le
  have htaken_le : c.taken+d.length ≤ c.server.world.written.length := by
    have hpos := List.length_pos_iff.mpr hne
    have hlen := hnext.length_le
    rw [List.length_map, List.length_drop] at hlen
    omega
  obtain ⟨stream, parser, hreturns, hcases⟩ := mstreamReadReturns_answer hparser hiob hne
    (by omega) (serverResponse_free htext.free) (by omega) (read_continues hserves hpart htaken hnext)
  have hexec := hserves.read_exec hpoint hreturns
  rcases hcases with ⟨hmore, hlist, hparser'⟩ | ⟨hall, ⟨response, hlist, hresponse⟩, hparser'⟩
  · exact read_part_step hserves hexec hrequest htaken htaken_le hne hmore hlist hparser'
  · exact read_whole_step hserves hexec hrequest htaken htaken_le hall hlist hresponse hparser'

end read

/-- Whatever happens at a stage leads to a stage, the closed connections aside. -/
theorem step (s : VerifyStage) (h : w.At p clock s) (e : VerifyEvent) (he : w.Enabled e)
    (hopen : ∀ i e', e ≠ .left i e') : w.Steps p clock s e := by
  cases s with
  | connecting k =>
    obtain ⟨hk, hcounts, hpoint, hparser, hconnection, hclosed⟩ := h
    cases e with
    | connect malloced =>
      exact connect_step ⟨hk, hcounts, hpoint, hparser, hconnection, hclosed⟩ malloced he
    | write =>
      rw [Enabled, hpoint] at he
      cases he
    | read d =>
      obtain ⟨iob, hiob, -⟩ := he
      rw [hpoint] at hiob
      cases hiob
    | server e =>
      obtain ⟨c, hc, -⟩ := he
      cases hconnection.symm.trans hc
    | left i e => exact absurd rfl (hopen i e)
  | writing k n c rp wp rest =>
    obtain ⟨hserves, ⟨request, sendIob, hpoint, hrequest⟩, hrest⟩ := h
    cases e with
    | connect malloced => cases hpoint.symm.trans he.1
    | write => exact write_step ⟨hserves, ⟨request, sendIob, hpoint, hrequest⟩, hrest⟩
    | read d =>
      obtain ⟨iob, hiob, -⟩ := he
      rw [hpoint] at hiob
      cases hiob
    | server e =>
      obtain ⟨u, rp', wp', rest', hx, hserves', hless⟩ := server_step hserves (Nat.le_succ n) e he
      refine Steps.of_same _ (.writing k n { c with server := u } rp' wp' rest') hx
        ⟨hserves', ⟨request, sendIob, hpoint, hrequest⟩, hrest⟩ rfl fun _ ht => ⟨(hless ht).1, ?_⟩
      exact Nat.add_lt_add_left (hless ht).2 _
    | left i e => exact absurd rfl (hopen i e)
  | reading k n c rp wp rest part =>
    obtain ⟨hserves, ⟨⟨request, iob, hpoint, hrequest⟩, hpart, hparser⟩, htaken⟩ := h
    cases e with
    | connect malloced => cases hpoint.symm.trans he.1
    | write =>
      rw [Enabled, hpoint] at he
      cases he
    | read d =>
      exact read_step ⟨hserves, ⟨⟨request, iob, hpoint, hrequest⟩, hpart, hparser⟩, htaken⟩ d he
    | server e =>
      obtain ⟨u, rp', wp', rest', hx, hserves', hless⟩ := server_step hserves le_rfl e he
      refine Steps.of_same _ (.reading k n { c with server := u } rp' wp' rest' part) hx
        ⟨hserves', ⟨⟨request, iob, hpoint, hrequest⟩, hpart, hparser⟩, htaken⟩ rfl
        fun _ ht => ⟨(hless ht).1, ?_⟩
      exact Nat.add_lt_add_right (Nat.add_lt_add_left (hless ht).2 _) _
    | left i e => exact absurd rfl (hopen i e)
  | returned =>
    obtain ⟨-, hpoint, hconnection, -⟩ := h
    cases e with
    | connect malloced => cases hpoint.symm.trans he.1
    | write =>
      rw [Enabled, hpoint] at he
      cases he
    | read d =>
      obtain ⟨iob, hiob, -⟩ := he
      rw [hpoint] at hiob
      cases hiob
    | server e =>
      obtain ⟨c, hc, -⟩ := he
      cases hconnection.symm.trans hc
    | left i e => exact absurd rfl (hopen i e)

/-- A stage does not depend on how far the apps on the closed connections are. -/
theorem At.left {s : VerifyStage} (h : w.At p clock s) (closed : List EchoWorld)
    (hlength : closed.length = w.closed.length) : At { w with closed := closed } p clock s := by
  have hserves {k n m : ℕ} {c : VerifyConnection} {rp : ReadPhase} {wp : WritePhase} {rest : List Cell}
      (h : w.Serves p clock k n m c rp wp rest) :
      Serves { w with closed := closed } p clock k n m c rp wp rest :=
    ⟨h.connection_lt, h.round_lt, h.counts, h.onRound, h.list, h.connection, h.echoes, h.running,
      h.taken_le, hlength.trans h.closed⟩
  cases s with
  | connecting k =>
    obtain ⟨hk, hcounts, hpoint, hparser, hconnection, hclosed⟩ := h
    exact ⟨hk, hcounts, hpoint, hparser, hconnection, hlength.trans hclosed⟩
  | writing k n c rp wp rest => exact ⟨hserves h.1, h.2⟩
  | reading k n c rp wp rest part => exact ⟨hserves h.1, h.2⟩
  | returned =>
    obtain ⟨hcounts, hpoint, hconnection, hclosed⟩ := h
    exact ⟨hcounts, hpoint, hconnection, hlength.trans hclosed⟩

theorem At.closed_le {s : VerifyStage} (h : w.At p clock s) : w.closed.length ≤ p.connections := by
  cases s with
  | connecting k => exact h.2.2.2.2.2.le.trans h.1.le
  | writing k n c rp wp rest => exact h.1.closed.le.trans h.1.connection_lt.le
  | reading k n c rp wp rest part => exact h.1.closed.le.trans h.1.connection_lt.le
  | returned => exact h.2.2.2.le

/-- A step that closes no connection, or one, adds its work to what is left behind. -/
theorem Steps.goes {s : VerifyStage} {e : VerifyEvent} (h : w.Steps p clock s e) {ranks : ℕ → ℕ}
    (hleft : w.LeftBehind p ranks) :
    ∃ t s' ranks', w.exec clock e = .ok t ∧ t.At p clock s' ∧ t.LeftBehind p ranks' ∧
      (s.Live → w.Truthful e →
        s'.Live ∧ s'.rank p+t.leftWork ranks' < s.rank p+w.leftWork ranks) := by
  obtain ⟨t, s', more, hx, ht, hclosed, hmore, hless⟩ := h
  cases more with
  | none =>
    have hsame : t.closed = w.closed := hclosed.trans (List.append_nil _)
    refine ⟨t, s', ranks, hx, ht, ?_, fun hlive htruth => ?_⟩
    · rw [LeftBehind, hsame]
      exact hleft
    · obtain ⟨hlive', hrank⟩ := hless hlive htruth
      rw [leftWork, hsame]
      exact ⟨hlive', Nat.add_lt_add_right hrank _⟩
  | some x =>
    have hadded : t.closed = w.closed ++ [x.1] := hclosed
    refine ⟨t, s', Function.update ranks w.closed.length x.2, hx, ht, ?_, fun hlive htruth => ?_⟩
    · intro i app happ
      rw [hadded] at happ
      rcases Nat.lt_trichotomy i w.closed.length with hlt | rfl | hgt
      · rw [List.getElem?_append_left hlt] at happ
        rw [Function.update_of_ne hlt.ne]
        exact hleft i app happ
      · rw [List.getElem?_concat_length] at happ
        obtain rfl := Option.some.inj happ
        rw [Function.update_self]
        exact hmore x rfl
      · rw [List.getElem?_eq_none (by rw [List.length_append, List.length_singleton]; omega)] at happ
        cases happ
    · obtain ⟨hlive', hrank⟩ := hless hlive htruth
      have hsum : t.leftWork (Function.update ranks w.closed.length x.2) = w.leftWork ranks+x.2 := by
        rw [leftWork, hadded, List.length_append, List.length_singleton, Finset.sum_range_succ,
          Function.update_self]
        refine congrArg (·+x.2) (Finset.sum_congr rfl fun i hi => ?_)
        exact Function.update_of_ne (Finset.mem_range.mp hi).ne _ _
      have hrank' : s'.rank p+x.2 < s.rank p := hrank
      rw [hsum]
      exact ⟨hlive', by omega⟩

/-- An event on a closed connection, other than its end with no `errno`. -/
theorem left_step {s : VerifyStage} (h : w.At p clock s) {ranks : ℕ → ℕ}
    (hleft : w.LeftBehind p ranks) (i : ℕ) (e : EchoEvent) (he : w.Enabled (.left i e))
    (hset : ¬(VerifyEvent.left i e).EndsUnset) :
    ∃ t ranks', w.exec clock (.left i e) = .ok t ∧ t.At p clock s ∧ t.LeftBehind p ranks' ∧
      (w.Truthful (.left i e) → t.leftWork ranks' < w.leftWork ranks) := by
  obtain ⟨app, happ, he, hp⟩ := he
  have happ : w.closed[i]? = some app := happ
  have hlt : i < w.closed.length := (List.getElem?_eq_some_iff.mp happ).1
  have hfits := p.linesFit (hlt.trans_le h.closed_le) le_rfl
  have hshort : ∀ line ∈ completeLines (p.sent i p.rounds), line.length ≤ iobufferDefaultCapacity := by
    intro line hline
    exact (hfits.short line hline).2.trans (by decide)
  obtain ⟨app', r, hx, happ', hless⟩ := (hleft i app happ).step hshort hfits.last e he hp
    fun heof => hset ⟨i, by rw [heof]⟩
  have hlength : (w.closed.set i app').length = w.closed.length := List.length_set
  refine ⟨{ w with closed := w.closed.set i app' }, Function.update ranks i r, ?_,
    h.left _ hlength, ?_, fun htruth => ?_⟩
  · simp only [exec, happ, hx, ok_bind]
  · intro j app'' hj
    by_cases hji : j = i
    · subst hji
      rw [show (w.closed.set j app')[j]? = some app' from List.getElem?_set_self hlt] at hj
      obtain rfl := Option.some.inj hj
      rw [Function.update_self]
      exact happ'
    · rw [show (w.closed.set i app')[j]? = w.closed[j]? from List.getElem?_set_ne (Ne.symm hji)] at hj
      rw [Function.update_of_ne hji]
      exact hleft j app'' hj
  · have hr := hless (htruth app happ)
    rw [leftWork, leftWork, hlength]
    apply Finset.sum_lt_sum
    · intro j _
      by_cases hji : j = i
      · rw [hji, Function.update_self]
        exact hr.le
      · rw [Function.update_of_ne hji]
    · exact ⟨i, Finset.mem_range.mpr hlt, by rw [Function.update_self]; exact hr⟩

/-- Whatever happens, but for the end of a closed connection with no `errno`, leads to a stage. -/
theorem advance {s : VerifyStage} (h : w.At p clock s) {ranks : ℕ → ℕ} (hleft : w.LeftBehind p ranks)
    (e : VerifyEvent) (he : w.Enabled e) (hset : ¬e.EndsUnset) :
    ∃ t s' ranks', w.exec clock e = .ok t ∧ t.At p clock s' ∧ t.LeftBehind p ranks' ∧
      (s.Live → w.Truthful e →
        s'.Live ∧ s'.rank p+t.leftWork ranks' < s.rank p+w.leftWork ranks) := by
  cases e with
  | left i e =>
    obtain ⟨t, ranks', hx, ht, hleft', hless⟩ := left_step h hleft i e he hset
    exact ⟨t, s, ranks', hx, ht, hleft', fun hlive htruth =>
      ⟨hlive, Nat.add_lt_add_left (hless htruth) _⟩⟩
  | connect malloced => exact (step s h _ he nofun).goes hleft
  | write => exact (step s h _ he nofun).goes hleft
  | read d => exact (step s h _ he nofun).goes hleft
  | server e => exact (step s h _ he nofun).goes hleft

/-- Before its end the loop can go on, unless the server is stalled. -/
theorem goes_on (s : VerifyStage) (h : w.At p clock s) (hlive : s.Live)
    (hstuck : ∀ e, ¬(w.Enabled e ∧ w.Truthful e)) : s = .returned := by
  cases s with
  | connecting k =>
    obtain ⟨-, -, hpoint, -⟩ := h
    exact absurd ⟨⟨hpoint, rfl, rfl, rfl, rfl⟩, trivial⟩
      (hstuck (.connect ⟨⟨.initial, false, false⟩, ⟨.initial, false, false⟩⟩))
  | writing k n c rp wp rest =>
    obtain ⟨-, ⟨request, sendIob, hpoint, -⟩, -⟩ := h
    refine absurd ⟨?_, trivial⟩ (hstuck .write)
    rw [Enabled, hpoint]
    rfl
  | reading k n c rp wp rest part =>
    obtain ⟨hserves, ⟨⟨request, iob, hpoint, -, hiob⟩, hpart, -⟩, htaken⟩ := h
    by_cases hwait : rp = .waiting ∧ c.server.world.incoming = []
    · obtain ⟨rfl, hin⟩ := hwait
      have hwritten := hserves.echoes.quiescent hin
      rw [(hserves.fits le_rfl).lines] at hwritten
      have hlt : c.taken < c.server.world.written.length := by
        have hle := hpart.length_le
        have hlength := serverResponse_length (p.text k n)
        have hanswers : c.server.world.written.length = (p.answers k (n+1)).length := by
          rw [hwritten, List.length_map]
          rfl
        rw [hanswers, p.answers_succ, List.length_append, echoLine_length, htaken]
        omega
      obtain ⟨ch, more, hmore⟩ : ∃ ch more, c.server.world.written.drop c.taken = some ch :: more := by
        have hne : (p.answers k (n+1)).drop c.taken ≠ [] := by
          rw [hwritten, List.length_map] at hlt
          exact List.drop_eq_nil_iff.not.mpr (Nat.not_le.mpr hlt)
        obtain ⟨ch, more, hcons⟩ := List.exists_cons_of_ne_nil hne
        refine ⟨ch, more.map some, ?_⟩
        rw [hwritten, ← List.map_drop]
        show ((p.answers k (n+1)).drop c.taken).map some = _
        rw [hcons, List.map_cons]
      refine absurd ⟨⟨iob, ?_, c, hserves.connection, by simp, ?_, ?_⟩, trivial⟩ (hstuck (.read [ch]))
      · rw [hpoint]
        rfl
      · rw [hmore]
        exact ⟨more, rfl⟩
      · rw [iobufferSpaceLen_empty hiob, List.length_singleton, iobufferDefaultCapacity]
        decide
    · obtain ⟨e, he, ht⟩ := echo_goes_on hserves.echoes hlive fun hrp hin => hwait ⟨hrp, hin⟩
      refine absurd ⟨⟨c, hserves.connection, he, ht.plain⟩, ?_⟩ (hstuck (.server e))
      intro c' hc'
      obtain rfl := Option.some.inj (hserves.connection.symm.trans hc')
      exact ht
  | returned => rfl

end VerifyWorld

/-- The client is right about the server: every answer so far passed, each round trip was
counted and timed once, and there are as many as planned at the end. On a closed connection the
server has answered everything, and its app is done at most once, with an `errno`. Whatever
happens next returns, on either side, but for the end of a closed connection where no call has
set `errno`: it fails an assertion of the server's message reader. -/
structure VerifyWorld.Passes {α : Type} (w : VerifyWorld α) (p : VerifyPlan) (clock : ℕ → α) :
    Prop where
  passed : w.thread.printed = List.replicate w.thread.printed.length true
  counted : w.thread.ctx.totalRoundtrips = w.thread.printed.length
  bounded : w.thread.printed.length ≤ p.rounds*p.connections
  timed : w.thread.ctx.responseTimesRef.Reads ((List.range w.thread.printed.length).map clock)
  complete : w.thread.point = .returned → w.thread.printed.length = p.rounds*p.connections
  answered : ∀ i app, w.closed[i]? = some app →
    app.world.written = (p.answers i p.rounds).map some
  done : ∀ app ∈ w.closed, app.Running ∨ app.Ended ∧ ∃ errno, errno ≠ 0 ∧ app.done = [errno]
  returns : ∀ e, w.Enabled e → ¬e.EndsUnset → ∃ t, w.exec clock e = .ok t
  aborts : ∀ e, w.Enabled e → e.EndsUnset → w.exec clock e =
    .error (.assertion "IOBuffer_data_len(msg_stream_ref->input_buffer) != 0")

section run

variable {α : Type} {p : VerifyPlan} {clock : ℕ → α} {w : VerifyWorld α} {t : VerifyThread α}

theorem VerifyThread.Counts.printed_length {k done : ℕ} (h : t.Counts p clock k done) :
    t.printed.length = done := by
  rw [h.printed, List.length_replicate]

/-- How many round trips are over at a stage. -/
theorem VerifyWorld.At.counts {s : VerifyStage} (h : w.At p clock s) :
    ∃ k done, w.thread.Counts p clock k done ∧ done ≤ p.rounds*p.connections ∧
      (w.thread.point = .returned → done = p.rounds*p.connections) := by
  cases s with
  | connecting k =>
    obtain ⟨hk, hcounts, hpoint, -⟩ := h
    refine ⟨k, k*p.rounds, hcounts, ?_, fun hend => ?_⟩
    · rw [Nat.mul_comm]
      exact Nat.mul_le_mul_left _ hk.le
    · cases hpoint.symm.trans hend
  | writing k n c rp wp rest =>
    obtain ⟨hserves, ⟨request, sendIob, hpoint, -⟩, -⟩ := h
    have hdone := p.done_lt hserves.connection_lt hserves.round_lt
    refine ⟨k, k*p.rounds+n, hserves.counts, by omega, fun hend => ?_⟩
    cases hpoint.symm.trans hend
  | reading k n c rp wp rest part =>
    obtain ⟨hserves, ⟨⟨request, iob, hpoint, -⟩, -⟩, -⟩ := h
    have hdone := p.done_lt hserves.connection_lt hserves.round_lt
    refine ⟨k, k*p.rounds+n, hserves.counts, by omega, fun hend => ?_⟩
    cases hpoint.symm.trans hend
  | returned =>
    refine ⟨_, _, h.1, ?_, fun _ => Nat.mul_comm _ _⟩
    rw [Nat.mul_comm]

/-- What the invariant says about the closed connections. -/
theorem VerifyWorld.LeftBehind.answered {ranks : ℕ → ℕ} (h : w.LeftBehind p ranks)
    (hle : w.closed.length ≤ p.connections) (i : ℕ) (app : EchoWorld)
    (happ : w.closed[i]? = some app) : app.world.written = (p.answers i p.rounds).map some := by
  have hlt : i < w.closed.length := (List.getElem?_eq_some_iff.mp happ).1
  have hlines := (p.linesFit (hlt.trans_le hle) le_rfl).lines
  rcases h i app happ with ⟨rp, hclosing, -⟩ | ⟨hover, -⟩
  · rw [hclosing.answered, hlines]
    rfl
  · rw [hover.answered, hlines]
    rfl

theorem VerifyWorld.LeftBehind.aborts {ranks : ℕ → ℕ} (h : w.LeftBehind p ranks) (e : VerifyEvent)
    (he : w.Enabled e) (hunset : e.EndsUnset) : w.exec clock e =
      .error (.assertion "IOBuffer_data_len(msg_stream_ref->input_buffer) != 0") := by
  obtain ⟨i, rfl⟩ := hunset
  obtain ⟨app, happ, he, -⟩ := he
  have happ : w.closed[i]? = some app := happ
  simp only [VerifyWorld.exec, happ, (h i app happ).aborts he, error_bind]

theorem VerifyWorld.At.passes {s : VerifyStage} {ranks : ℕ → ℕ} (h : w.At p clock s)
    (hleft : w.LeftBehind p ranks) : w.Passes p clock := by
  obtain ⟨k, done, hcounts, hle, hend⟩ := h.counts
  have hlength := hcounts.printed_length
  refine ⟨?_, ?_, ?_, ?_, ?_, hleft.answered h.closed_le, ?_, ?_, hleft.aborts⟩
  · rw [hlength]
    exact hcounts.printed
  · rw [hlength]
    exact hcounts.total
  · rw [hlength]
    exact hle
  · rw [hlength]
    exact hcounts.times.filled.reads
  · rw [hlength]
    exact hend
  · intro app happ
    obtain ⟨i, happ⟩ := List.mem_iff_getElem?.mp happ
    rcases hleft i app happ with ⟨rp, hclosing, -⟩ | ⟨hover, -⟩
    · exact .inl hclosing.running
    · exact .inr ⟨hover.ended, hover.reported⟩
  · intro e he hset
    obtain ⟨t, -, -, hx, -⟩ := VerifyWorld.advance h hleft e he hset
    exact ⟨t, hx⟩

theorem verify_start (hstart : VerifyThread.start (p.ctx α) = .ok t) :
    VerifyWorld.At ⟨t, none, []⟩ p clock (.connecting 0) := by
  obtain ⟨hcounts, hpoint, hparser⟩ := VerifyThread.start_counts p clock hstart
  refine ⟨p.connectionsPos, ?_, hpoint, hparser, rfl, rfl⟩
  rw [Nat.zero_mul]
  exact hcounts

theorem verify_start_left (ranks : ℕ → ℕ) :
    VerifyWorld.LeftBehind ⟨t, none, []⟩ p ranks := by
  intro i app happ
  cases happ

end run

/-- A verifying client on the echo server: over all interleavings of the two, all pieces in
which the bytes travel and all EAGAINs of the server's socket, no answer fails the check and
neither side faults, until the end of a closed connection is met with no `errno`. -/
theorem verify_passes {α : Type} (p : VerifyPlan) (clock : ℕ → α) (t : VerifyThread α)
    (hstart : VerifyThread.start (p.ctx α) = .ok t) (es : List VerifyEvent) (w : VerifyWorld α)
    (h : (verifyMachine clock).Run ⟨t, none, []⟩ es w) : w.Passes p clock := by
  obtain ⟨s, ranks, hw, hleft⟩ : ∃ s ranks, w.At p clock s ∧ w.LeftBehind p ranks := by
    refine h.keeps (I := fun w => ∃ s ranks, w.At p clock s ∧ w.LeftBehind p ranks) ?_
      ⟨_, 0, verify_start hstart, verify_start_left 0⟩
    rintro u e v ⟨s, ranks, hu, hleft⟩ he hx
    have hset : ¬e.EndsUnset := by
      intro hunset
      cases hx.symm.trans (hleft.aborts e he hunset)
    obtain ⟨v', s', ranks', hx', hv, hleft', -⟩ := VerifyWorld.advance hu hleft e he hset
    obtain rfl := Except.ok.inj (hx.symm.trans hx')
    exact ⟨s', ranks', hv, hleft'⟩
  exact hw.passes hleft

/-- One connection with one round trip. -/
def VerifyPlan.single : VerifyPlan where
  ident := 7
  rounds := 1
  connections := 1
  identRange := by decide
  roundsPos := Nat.one_pos
  connectionsPos := Nat.one_pos
  small := by decide

/-- The answer comes back in two pieces, of which the client reads the second one after the
server has finished. The server finds the end of the closed connection after an EAGAIN. -/
theorem verify_passes_single :
    ∃ t es w, VerifyThread.start (VerifyPlan.single.ctx ℕ) = .ok t ∧
      (verifyMachine id).Run ⟨t, none, []⟩ es w ∧ w.thread.printed = [true] ∧
      w.thread.point = .returned ∧ w.closed.map EchoWorld.done = [[11]] ∧
      w.Passes VerifyPlan.single id := by
  let t : VerifyThread ℕ := ⟨VerifyPlan.single.ctx ℕ, ⟨⟨⟨List.replicate 4097 none, 4096, 0, 0⟩⟩⟩,
    mstreamNew, 0, 0, .connecting, []⟩
  let request := ascii "Client 7 connection: 0 msg: 1" ++ [10]
  let answer := ascii "ServerResponse:[Client 7 connection: 0 msg: 1]" ++ [10]
  let es : List VerifyEvent := [.connect ⟨⟨.ready, false, false⟩, ⟨.ready, false, false⟩⟩,
    .server .postableRead, .server (.stream (.readReturns .eagain)), .write,
    .server (.stream .readReady), .server (.stream (.readReturns (.bytes request))),
    .server (.stream (.writeReturns (.wrote 20))), .read (answer.take 20),
    .server (.stream (.runPosted .postableTryWrite)),
    .server (.stream (.writeReturns (.wrote 27))), .server .postableRead, .read (answer.drop 20),
    .left 0 (.stream (.readReturns .eagain)), .left 0 (.stream .readReady),
    .left 0 (.stream (.readReturns (.eof 11)))]
  have hrun : ∃ w, (verifyMachine (id : ℕ → ℕ)).Run ⟨t, none, []⟩ es w ∧ w.thread.printed = [true] ∧
      w.thread.point = .returned ∧ w.closed.map EchoWorld.done = [[11]] :=
    Machine.exists_run_of_replay _ (by decide +kernel)
  obtain ⟨w, hrun, hprinted, hend, hdone⟩ := hrun
  exact ⟨t, es, w, rfl, hrun, hprinted, hend, hdone,
    verify_passes VerifyPlan.single id t rfl es w hrun⟩

/-- If the server's socket reports what is there and has room for a byte, the loop comes to
its end: after at most 1000 events for each round trip all of them have passed, the server's
apps are done, and nothing else can stop it. -/
theorem verify_finishes {α : Type} (p : VerifyPlan) (clock : ℕ → α) (t : VerifyThread α)
    (hstart : VerifyThread.start (p.ctx α) = .ok t) :
    (truthfulMachine clock).MustFinish ⟨t, none, []⟩
      (fun w => w.thread.point = .returned ∧
        w.thread.printed = List.replicate (p.rounds*p.connections) true ∧
        w.closed.length = p.connections ∧ ∀ app ∈ w.closed, ∃ errno, errno ≠ 0 ∧ app.done = [errno])
      (1000*(p.rounds*p.connections)+10) := by
  let I (w : VerifyWorld α) (r : ℕ) : Prop := ∃ s ranks, w.At p clock s ∧ w.LeftBehind p ranks ∧
    s.Live ∧ s.rank p+w.leftWork ranks = r
  have hdescends : (truthfulMachine clock).Descends I := by
    rintro u r e ⟨s, ranks, hu, hleft, hlive, rfl⟩ ⟨he, ht⟩
    have hset : ¬e.EndsUnset := by
      rintro ⟨i, rfl⟩
      obtain ⟨app, happ, -⟩ := he
      exact (ht app happ).2 rfl
    obtain ⟨v, s', ranks', hx, hv, hleft', hless⟩ := VerifyWorld.advance hu hleft e he hset
    obtain ⟨hlive', hrank⟩ := hless hlive ht
    exact ⟨v, _, hx, ⟨s', ranks', hv, hleft', hlive', rfl⟩, hrank⟩
  have hstart' : I ⟨t, none, []⟩ (1000*(p.rounds*p.connections)+10) := by
    refine ⟨.connecting 0, 0, verify_start hstart, verify_start_left 0, trivial, ?_⟩
    rw [VerifyStage.rank, Nat.zero_mul, Nat.sub_zero]
    rfl
  refine hdescends.mustFinish ?_ hstart'
  rintro u r ⟨s, ranks, hu, hleft, hlive, -⟩ hstuck
  obtain rfl := VerifyWorld.goes_on s hu hlive hstuck
  obtain ⟨hcounts, hpoint, -, hclosed⟩ := hu
  refine ⟨hpoint, ?_, hclosed, ?_⟩
  · rw [hcounts.printed, Nat.mul_comm]
  · intro app happ
    obtain ⟨i, happ⟩ := List.mem_iff_getElem?.mp happ
    have hover : app.Over (p.sent i p.rounds) := by
      apply (hleft i app happ).goes_on
      rintro e ⟨he, hp, ht⟩
      refine hstuck (.left i e) ⟨⟨app, happ, he, hp⟩, ?_⟩
      intro app' happ'
      obtain rfl := Option.some.inj (happ.symm.trans happ')
      exact ht
    exact hover.reported

theorem verify_finishes_single :
    ∃ t, VerifyThread.start (VerifyPlan.single.ctx ℕ) = .ok t ∧
      (truthfulMachine id).MustFinish ⟨t, none, []⟩
        (fun w => w.thread.point = .returned ∧ w.thread.printed = [true] ∧ w.closed.length = 1 ∧
          ∀ app ∈ w.closed, ∃ errno, errno ≠ 0 ∧ app.done = [errno]) 1010 := by
  obtain ⟨t, hstart⟩ : ∃ t, VerifyThread.start (VerifyPlan.single.ctx ℕ) = .ok t := ⟨_, rfl⟩
  exact ⟨t, hstart, verify_finishes VerifyPlan.single id t hstart⟩

end CHttp
