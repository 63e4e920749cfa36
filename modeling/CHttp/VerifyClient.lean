import CHttp.EchoApp
import CHttp.HttpSerialize
import CHttp.ResponseTimes

/-! The verifying client: `mstream.c`, a message stream over a blocking socket, and
`verify_client_thread_function`, which sends requests to the echo server and compares the
answers. The thread is cut where it blocks: in `connect`, in `write` and in `read`. -/
namespace CHttp

/-- `MStream_s` without its tags, its address and its descriptor. -/
structure MStream where
  inputMsgList : List NewLineMsg
  deriving DecidableEq, Repr

/-- The error code is ignored. -/
def newMsgCb (mstream : MStream) (nm : NewLineMsg) (_ : ℤ) : MStream :=
  ⟨mstream.inputMsgList ++ [nm]⟩

def mstreamNew : MStream := ⟨[]⟩

/-- `mstream_write` up to its call of `write`. -/
def mstreamWrite (msg : NewLineMsg) : Res IOBuffer := newlineMsgSerialize msg

/-- `write` has returned `nw`. All three branches of the source fail. -/
def mstreamWriteReturns (sendIob : IOBuffer) (nw : ℤ) : Res Unit :=
  if nw ≠ iobufferDataLen sendIob then .error (.assertion "0") else .ok ()

/-- The head of the loop of `mstream_read`: a message that is there, or a new buffer for
`read`. `IOBuffer_new` has no parameters, so its argument 256 is ignored. -/
def mstreamReadTurn (stream : MStream) : Res (NewLineMsg × MStream ⊕ IOBuffer) :=
  match stream.inputMsgList with
  | m :: rest => .ok (.inl (m, ⟨rest⟩))
  | [] => do
    let iob ← iobufferNew
    .ok (.inr iob)

/-- `read` has returned. Its result is kept in a `size_t`, so that -1 passes the test for the
end of the input and fails in `IOBuffer_commit`. -/
def mstreamReadReturns (stream : MStream) (parser : NewLineMsgParser) (iob : IOBuffer) :
    TcpReadResult → Res (MStream × NewLineMsgParser)
  | .bytes d => do
    let iob ← iobufferFillSpace iob (d.map some)
    let iob ← iobufferCommit iob d.length
    let (parser, _, stream) ← newlineMsgParserConsume newMsgCb parser iob stream
    .ok (stream, parser)
  | .eof _ => .error (.assertion "rn > 0")
  | .eagain | .failed _ => .error (.assertion "bytes_used > 0")

/-- `VerifyThreadContext_s` as far as the thread uses it. -/
structure VerifyThreadContext (α : Type) where
  maxRountripsPerConnection : ℤ
  maxConnectionsPerThread : ℤ
  ident : ℤ
  roundtripPerConnectionCounter : ℤ
  totalRoundtrips : ℤ
  responseTimesRef : ResponseTimesArray α
  deriving DecidableEq, Repr

section context

variable {α : Type}

def verifyCtxInit (id nbrRoundtripsPerConnection nbrConnectionsPerThread : ℤ) :
    VerifyThreadContext α where
  maxRountripsPerConnection := nbrRoundtripsPerConnection
  maxConnectionsPerThread := nbrConnectionsPerThread
  ident := id
  roundtripPerConnectionCounter := 0
  totalRoundtrips := 0
  responseTimesRef := rtaNew (cInt (nbrRoundtripsPerConnection*nbrConnectionsPerThread))

def verifyCtxIncrementTotalRoundTripCount (ctx : VerifyThreadContext α) : VerifyThreadContext α :=
  { ctx with totalRoundtrips := cInt (ctx.totalRoundtrips+1) }

def verifyCtxIncrementConnectionRoundTripCount (ctx : VerifyThreadContext α) :
    VerifyThreadContext α :=
  { ctx with roundtripPerConnectionCounter := cInt (ctx.roundtripPerConnectionCounter+1) }

def verifyCtxResetConnectionRoundTripCount (ctx : VerifyThreadContext α) : VerifyThreadContext α :=
  { ctx with roundtripPerConnectionCounter := 0 }

/-- The format `"Client %d connection: %d msg: %d"`. -/
def clientText (ident i j : ℤ) : Bytes :=
  ascii "Client " ++ fmtD ident ++ ascii " connection: " ++ fmtD i ++ ascii " msg: " ++ fmtD j

def makeRequest (ctx : VerifyThreadContext α) (i j : ℤ) : Res NewLineMsg := do
  let msgRef ← newlineMsgNew
  let iob ← iobufferSprintf (newlineMsgGetContent msgRef) (clientText ctx.ident i j)
  .ok (newlineMsgSetContent msgRef iob)

end context

/-- `sprintf` into `char test_buffer[200]`, and `strcmp` with the answer. -/
def verifyResponse (requestMsg responseMsg : NewLineMsg) : Res Bool := do
  let response ← iobufferCstr (newlineMsgGetContent responseMsg)
  let request ← iobufferCstr (newlineMsgGetContent requestMsg)
  let testBuffer := serverResponse request
  if 200 ≤ testBuffer.length then .error .outOfBounds
  else do
    cAssert (testBuffer.length = (cstr testBuffer).length) "slen == strlen(test_buffer)"
    .ok (cstr testBuffer = response)

/-- Where the thread is: about to connect, in `write`, in the `read` of `mstream_read`, or
at its end. -/
inductive VerifyPoint where
  | connecting
  | writing (request : NewLineMsg) (sendIob : IOBuffer)
  | reading (request : NewLineMsg) (iob : IOBuffer)
  | returned
  deriving DecidableEq, Repr

/-- The thread's context and its variables, and what it has printed about the answers. -/
structure VerifyThread (α : Type) where
  ctx : VerifyThreadContext α
  parser : NewLineMsgParser
  stream : MStream
  i : ℤ
  j : ℤ
  point : VerifyPoint
  printed : List Bool
  deriving DecidableEq, Repr

namespace VerifyThread

variable {α : Type} (clock : ℕ → α)

/-- The test of the loop over the connections. -/
def nextConnection (t : VerifyThread α) : VerifyThread α :=
  { t with point := if t.i < t.ctx.maxConnectionsPerThread then .connecting else .returned }

/-- `verify_client_thread_function` up to its first connection. -/
def start (ctx : VerifyThreadContext α) : Res (VerifyThread α) := do
  let parser ← newlineMsgParserNew
  .ok (nextConnection ⟨ctx, parser, mstreamNew, 0, 0, .connecting, []⟩)

/-- The loop over the round trips from its head to `write`. -/
def nextRound (t : VerifyThread α) : Res (VerifyThread α) := do
  let j := cInt (t.j+1)
  let request ← makeRequest t.ctx t.i j
  let sendIob ← mstreamWrite request
  .ok { t with j := j, point := .writing request sendIob }

/-- The connection is there. -/
def connected (t : VerifyThread α) : Res (VerifyThread α) :=
  nextRound { t with
    stream := mstreamNew
    ctx := verifyCtxResetConnectionRoundTripCount t.ctx
    j := 0 }

/-- From the answer to the next call that blocks. `clock n` is the time that round trip
number `n` took. -/
def endRound (t : VerifyThread α) (request response : NewLineMsg) : Res (VerifyThread α) := do
  let _ ← newlineMsgSerialize request
  let _ ← newlineMsgSerialize response
  let ok ← verifyResponse request response
  let readings ← rtaAdd t.ctx.responseTimesRef (clock t.printed.length)
  let ctx := verifyCtxIncrementTotalRoundTripCount
    (verifyCtxIncrementConnectionRoundTripCount { t.ctx with responseTimesRef := readings })
  let t := { t with ctx := ctx, printed := t.printed ++ [ok] }
  if ctx.maxRountripsPerConnection ≤ ctx.roundtripPerConnectionCounter then
    -- the stream is freed and the next connection follows
    .ok (nextConnection { t with i := cInt (t.i+1) })
  else nextRound t

/-- `mstream_read` at the head of its loop. -/
def readTurn (t : VerifyThread α) (request : NewLineMsg) : Res (VerifyThread α) := do
  match ← mstreamReadTurn t.stream with
  | .inl (response, stream) => endRound clock { t with stream := stream } request response
  | .inr iob => .ok { t with point := .reading request iob }

/-- `write` has returned `nw`. -/
def writeReturns (t : VerifyThread α) (nw : ℤ) : Res (VerifyThread α) :=
  match t.point with
  | .writing request sendIob => do
    mstreamWriteReturns sendIob nw
    readTurn clock t request
  | _ => .error .nullPointer

/-- `read` has returned. -/
def readReturns (t : VerifyThread α) (r : TcpReadResult) : Res (VerifyThread α) :=
  match t.point with
  | .reading request iob => do
    let (stream, parser) ← mstreamReadReturns t.stream t.parser iob r
    readTurn clock { t with stream := stream, parser := parser } request
  | _ => .error .nullPointer

end VerifyThread

/-- What a thread is to do. The number of its round trips and twice that number are `int`s. -/
structure VerifyPlan where
  ident : ℤ
  rounds : ℕ
  connections : ℕ
  identRange : -2^31 ≤ ident ∧ ident < 2^31
  roundsPos : 1 ≤ rounds
  connectionsPos : 1 ≤ connections
  small : 2*(rounds*connections) < 2^31

namespace VerifyPlan

variable (p : VerifyPlan)

def ctx (α : Type) : VerifyThreadContext α := verifyCtxInit p.ident p.rounds p.connections

/-- Request number `n` on a connection; the source counts them from 1. -/
def text (k n : ℕ) : Bytes := clientText p.ident k (n+1 : ℕ)

/-- The first `n` requests on a connection, what they are on the wire, and their answers. -/
def texts (k n : ℕ) : List Bytes := (List.range n).map (p.text k)

def sent (k n : ℕ) : Bytes := (p.texts k n).flatMap (· ++ [10])

def answers (k n : ℕ) : Bytes := (p.texts k n).flatMap echoLine

theorem rounds_lt : p.rounds < 2^31 := by
  have hle := Nat.le_mul_of_pos_right p.rounds p.connectionsPos
  have hsmall := p.small
  omega

theorem connections_lt : p.connections < 2^31 := by
  have hle := Nat.le_mul_of_pos_left p.connections p.roundsPos
  have hsmall := p.small
  omega

/-- The number of a round trip on a connection, among all of them. -/
theorem done_lt {k n : ℕ} (hk : k < p.connections) (hn : n < p.rounds) :
    k*p.rounds+n+1 ≤ p.rounds*p.connections := by
  calc
    k*p.rounds+n+1 ≤ k*p.rounds+p.rounds := by omega
    _ = (k+1)*p.rounds := (Nat.succ_mul k p.rounds).symm
    _ ≤ p.connections*p.rounds := Nat.mul_le_mul_right _ hk
    _ = p.rounds*p.connections := Nat.mul_comm _ _

@[simp] theorem texts_zero (k : ℕ) : p.texts k 0 = [] := rfl

theorem texts_succ (k n : ℕ) : p.texts k (n+1) = p.texts k n ++ [p.text k n] := by
  rw [texts, List.range_succ, List.map_append, List.map_singleton, texts]

theorem length_texts (k n : ℕ) : (p.texts k n).length = n := by
  rw [texts, List.length_map, List.length_range]

theorem sent_succ (k n : ℕ) : p.sent k (n+1) = p.sent k n ++ (p.text k n ++ [10]) := by
  rw [sent, texts_succ, List.flatMap_append, List.flatMap_singleton, sent]

theorem answers_succ (k n : ℕ) : p.answers k (n+1) = p.answers k n ++ echoLine (p.text k n) := by
  rw [answers, texts_succ, List.flatMap_append, List.flatMap_singleton, answers]

end VerifyPlan

section text

theorem fmtD_length_le (z : ℤ) (hl : -2^31 ≤ z) (hu : z < 2^31) : (fmtD z).length ≤ 11 := by
  have hdigits : (Nat.toDigits 10 z.natAbs).length ≤ 10 :=
    Nat.toDigits_length 10 _ 10 (by decide) (by omega)
  rw [fmtD, List.length_append, List.length_map]
  split_ifs
  · rw [List.length_singleton]
    omega
  · rw [List.length_nil]
    omega

/-- A request has no line end in it. -/
theorem clientText_free (ident i j : ℤ) : ∀ ch ∈ clientText ident i j, isLineEnd ch = false := by
  have hnumber (z : ℤ) : ∀ ch ∈ fmtD z, isLineEnd ch = false := by
    intro ch hch
    have hbounds := fmtD_bytes z ch hch
    rw [isLineEnd, Bool.or_eq_false_iff, decide_eq_false_iff_not, decide_eq_false_iff_not]
    constructor
    · rintro rfl
      exact absurd hbounds.1 (by decide)
    · rintro rfl
      exact absurd hbounds.1 (by decide)
  have hword : ∀ ch ∈ ascii "Client " ++ ascii " connection: " ++ ascii " msg: ",
      isLineEnd ch = false := by
    decide +kernel
  intro ch hch
  simp only [clientText, List.mem_append] at hch
  rw [List.forall_mem_append, List.forall_mem_append] at hword
  rcases hch with ((((h | h) | h) | h) | h) | h
  · exact hword.1.1 ch h
  · exact hnumber ident ch h
  · exact hword.1.2 ch h
  · exact hnumber i ch h
  · exact hword.2 ch h
  · exact hnumber j ch h

theorem serverResponse_free {line : Bytes} (h : ∀ ch ∈ line, isLineEnd ch = false) :
    ∀ ch ∈ serverResponse line, isLineEnd ch = false := by
  have hword : ∀ ch ∈ ascii "ServerResponse:[" ++ ascii "]", isLineEnd ch = false := by
    decide +kernel
  intro ch hch
  rw [List.forall_mem_append] at hword
  rw [serverResponse, List.mem_append, List.mem_append] at hch
  rcases hch with (hch | hch) | hch
  · exact hword.1 ch hch
  · exact h ch hch
  · exact hword.2 ch hch

theorem zero_not_mem_of_free {line : Bytes} (h : ∀ ch ∈ line, isLineEnd ch = false) : 0 ∉ line := by
  intro hz
  cases h 0 hz

end text

namespace VerifyPlan

variable (p : VerifyPlan) {k n : ℕ}

/-- What is used of a request's text. -/
structure TextFits (text : Bytes) : Prop where
  pos : 1 ≤ text.length
  le : text.length ≤ 59
  free : ∀ ch ∈ text, isLineEnd ch = false

theorem text_fits (hk : k < p.connections) (hn : n < p.rounds) : TextFits (p.text k n) := by
  have hrounds := p.rounds_lt
  have hconnections := p.connections_lt
  have hident := fmtD_length_le p.ident p.identRange.1 p.identRange.2
  have hi := fmtD_length_le k (by omega) (by omega)
  have hj := fmtD_length_le (n+1 : ℕ) (by omega) (by omega)
  have hlength : (p.text k n).length =
      26+(fmtD p.ident).length+(fmtD k).length+(fmtD (n+1 : ℕ)).length := by
    simp only [text, clientText, List.length_append]
    rw [show (ascii "Client ").length = 7 from rfl,
      show (ascii " connection: ").length = 13 from rfl, show (ascii " msg: ").length = 6 from rfl]
    omega
  exact ⟨by omega, by omega, clientText_free _ _ _⟩

theorem texts_fit (hk : k < p.connections) (hn : n ≤ p.rounds) (line : Bytes)
    (hline : line ∈ p.texts k n) : TextFits line := by
  obtain ⟨m, hm, rfl⟩ := List.mem_map.mp hline
  exact p.text_fits hk (lt_of_lt_of_le (List.mem_range.mp hm) hn)

/-- The requests are the lines that the server reads. -/
theorem lines_sent (hk : k < p.connections) (hn : n ≤ p.rounds) :
    completeLines (p.sent k n) = p.texts k n ∧ unfinishedLine (p.sent k n) = [] :=
  pieces_unique isLineEnd (p.texts k n) [] (splitOnP_flatMap_snoc isLineEnd (p.texts k n) 10 rfl
    fun line hline => (p.texts_fit hk hn line hline).free)

end VerifyPlan

section messages

variable {α : Type} {request response : NewLineMsg} {text : Bytes}

theorem makeRequest_says (ctx : VerifyThreadContext α) (i j : ℤ)
    (hfits : VerifyPlan.TextFits (clientText ctx.ident i j)) :
    ∃ msg, makeRequest ctx i j = .ok msg ∧ msg.Says (clientText ctx.ident i j) := by
  obtain ⟨msg, hnew, hmsg⟩ := newlineMsgNew_says
  have hpos := hfits.pos
  have hle := hfits.le
  obtain ⟨iob, hprint, hiob⟩ := iobufferSprintf_holdsText msg.iob iobufferDefaultCapacity
    (clientText ctx.ident i j) hmsg.holds (List.length_pos_iff.mp hpos)
    (by rw [iobufferDefaultCapacity]; omega)
  refine ⟨newlineMsgSetContent msg iob, ?_, hiob⟩
  rw [makeRequest, hnew, ok_bind, newlineMsgGetContent, hprint, ok_bind]

/-- A request and its answer can be serialised. -/
theorem serialize_short (hsaid : request.Says text) (hpos : 1 ≤ text.length)
    (hle : text.length ≤ 76) (hfree : ∀ ch ∈ text, isLineEnd ch = false) :
    ∃ iob, newlineMsgSerialize request = .ok iob ∧
      iob.HoldsText iobufferDefaultCapacity (text ++ [10]) :=
  newlineMsgSerialize_holds request _ text hsaid (List.length_pos_iff.mp hpos)
    (zero_not_mem_of_free hfree) (by rw [iobufferDefaultCapacity]; omega)

/-- The answer to a request passes, and fits the buffer on the way. -/
theorem verifyResponse_answers (hrequest : request.Says text)
    (hresponse : response.Says (serverResponse text)) (hfits : VerifyPlan.TextFits text) :
    verifyResponse request response = .ok true := by
  have hlength := serverResponse_length text
  have hpos := hfits.pos
  have hle := hfits.le
  have hz := zero_not_mem_of_free (serverResponse_free hfits.free)
  have hanswer : iobufferCstr response.iob = .ok (serverResponse text) :=
    hresponse.cstr (List.length_pos_iff.mp (by omega)) hz
  have hasked : iobufferCstr request.iob = .ok text :=
    hrequest.cstr (List.length_pos_iff.mp hpos) (zero_not_mem_of_free hfits.free)
  rw [verifyResponse, newlineMsgGetContent, newlineMsgGetContent, hanswer, ok_bind, hasked, ok_bind]
  dsimp only
  rw [if_neg (by omega), (cstr_eq_self_iff _).mpr hz, decide_eq_true rfl, cAssert_true, ok_bind,
    decide_eq_true rfl]

theorem emit_newMsgCb (stream : MStream) (msgs : List NewLineMsg) :
    emit newMsgCb stream msgs = ⟨stream.inputMsgList ++ msgs⟩ := by
  induction msgs generalizing stream with
  | nil =>
    rw [List.append_nil]
    rfl
  | cons msg msgs ih =>
    have hstep : emit newMsgCb stream (msg :: msgs) =
        emit newMsgCb ⟨stream.inputMsgList ++ [msg]⟩ msgs := rfl
    rw [hstep, ih, List.append_assoc, List.singleton_append]

/-- An answer as far as it has come: it is an unfinished line until its line end is there. -/
theorem answer_pieces (hfree : ∀ ch ∈ text, isLineEnd ch = false) {pre : Bytes}
    (hpre : pre <+: text ++ [10]) :
    (pre <+: text ∧ completeLines pre = [] ∧ unfinishedLine pre = pre) ∨
      (pre = text ++ [10] ∧ completeLines pre = [text] ∧ unfinishedLine pre = []) := by
  rcases List.prefix_concat_iff.mp hpre with rfl | hin
  · right
    have hsnoc : isLineEnd 10 = true := rfl
    rw [completeLines, completePieces_snoc, if_pos hsnoc, unfinishedLine, lastPiece_snoc,
      if_pos hsnoc, (pieces_of_free isLineEnd hfree).1, (pieces_of_free isLineEnd hfree).2]
    exact ⟨rfl, rfl, rfl⟩
  · left
    exact ⟨hin, pieces_of_free isLineEnd fun ch hch => hfree ch (hin.subset hch)⟩

/-- The bytes of an answer, as far as they have come: they stay in the parser up to the line
end, which makes them a message. -/
theorem mstreamReadReturns_answer {parser : NewLineMsgParser} {iob : IOBuffer} {part d : Bytes}
    (hparser : parser.msg.Says part) (hiob : iob.Holds iobufferDefaultCapacity []) (hd : d ≠ [])
    (hroom : d.length ≤ iobufferDefaultCapacity) (hfree : ∀ ch ∈ text, isLineEnd ch = false)
    (hlen : text.length ≤ 76) (hpart : part ++ d <+: text ++ [10]) :
    ∃ stream parser', mstreamReadReturns ⟨[]⟩ parser iob (.bytes d) = .ok (stream, parser') ∧
      ((part ++ d <+: text ∧ stream.inputMsgList = [] ∧ parser'.msg.Says (part ++ d)) ∨
        (part ++ d = text ++ [10] ∧ (∃ response, stream.inputMsgList = [response] ∧
          response.Says text) ∧ parser'.msg.Says [])) := by
  obtain ⟨filled, iob₁, hfill, hcommit, hiob₁⟩ := iobufferFillSpace_commit iob
    iobufferDefaultCapacity [] (d.map some) hiob (List.map_eq_nil_iff.not.mpr hd)
    (by rwa [List.length_nil, Nat.zero_add, List.length_map])
  rw [List.length_map] at hcommit
  rw [List.nil_append] at hiob₁
  have hparsed : parser.Parsed part [] := by
    rcases answer_pieces hfree ((List.prefix_append part d).trans hpart) with
      ⟨-, hlines, hlast⟩ | ⟨heq, -⟩
    · refine ⟨?_, ?_⟩
      · rw [hlines]
        exact .nil
      · rw [hlast]
        exact hparser
    · have hlength := hpart.length_le
      have hpos := List.length_pos_iff.mpr hd
      rw [List.length_append, heq] at hlength
      omega
  rcases newlineMsgParserConsume_parsed newMsgCb d part parser [] hparsed iob₁ _ hiob₁ ⟨[]⟩ with
    ⟨mp, iob₂, emitted, hconsume, -, hafter⟩ | ⟨-, pre, hpre, hlong⟩
  · rw [emit_newMsgCb, List.nil_append] at hconsume
    rw [List.nil_append] at hafter
    refine ⟨⟨emitted⟩, mp, ?_, ?_⟩
    · simp only [mstreamReadReturns, hfill, ok_bind, hcommit, hconsume]
    · have hmessages := hafter.lines
      have hcurrent := hafter.current
      rcases answer_pieces hfree hpart with ⟨hmore, hlines, hlast⟩ | ⟨hall, hlines, hlast⟩
      · left
        rw [hlines] at hmessages
        rw [hlast] at hcurrent
        cases hmessages
        exact ⟨hmore, rfl, hcurrent⟩
      · right
        rw [hlines] at hmessages
        rw [hlast] at hcurrent
        cases hmessages with
        | cons hresponse htail =>
          cases htail
          exact ⟨hall, ⟨_, rfl, hresponse⟩, hcurrent⟩
  · exfalso
    have hbound : (unfinishedLine (part ++ pre)).length ≤ 76 := by
      have hmore : part ++ pre <+: text ++ [10] :=
        ((List.prefix_append_right_inj part).mpr hpre).trans hpart
      rcases answer_pieces hfree hmore with ⟨hin, -, hlast⟩ | ⟨-, -, hlast⟩
      · rw [hlast]
        exact hin.length_le.trans hlen
      · rw [hlast]
        exact Nat.zero_le _
    rw [iobufferDefaultCapacity] at hlong
    omega

end messages

namespace VerifyThread

variable {α : Type} {p : VerifyPlan} {clock : ℕ → α} {t : VerifyThread α} {k n done : ℕ}

/-- The thread on connection `k` after so many round trips in all: it has counted and timed
them, and each of them passed. -/
structure Counts (t : VerifyThread α) (p : VerifyPlan) (clock : ℕ → α) (k done : ℕ) : Prop where
  ident : t.ctx.ident = p.ident
  maxRounds : t.ctx.maxRountripsPerConnection = p.rounds
  maxConnections : t.ctx.maxConnectionsPerThread = p.connections
  connection : t.i = k
  total : t.ctx.totalRoundtrips = done
  times : t.ctx.responseTimesRef.Holds ⟨p.rounds*p.connections, (List.range done).map clock⟩
  printed : t.printed = List.replicate done true

/-- The round trip under way on the connection, of which `n` came before it. -/
structure OnRound (t : VerifyThread α) (n : ℕ) : Prop where
  counter : t.ctx.roundtripPerConnectionCounter = n
  number : t.j = (n+1 : ℕ)

theorem Counts.congr {t' : VerifyThread α} (h : t.Counts p clock k done) (hctx : t'.ctx = t.ctx)
    (hi : t'.i = t.i) (hprinted : t'.printed = t.printed) : t'.Counts p clock k done := by
  refine ⟨?_, ?_, ?_, hi.trans h.connection, ?_, ?_, hprinted.trans h.printed⟩
  · rw [hctx, h.ident]
  · rw [hctx, h.maxRounds]
  · rw [hctx, h.maxConnections]
  · rw [hctx, h.total]
  · rw [hctx]
    exact h.times

/-- The thread is in the `write` of a request. -/
def WritesText (t : VerifyThread α) (text : Bytes) : Prop :=
  ∃ request iob, t.point = .writing request iob ∧ request.Says text ∧
    iob.HoldsText iobufferDefaultCapacity (text ++ [10])

theorem start_counts (p : VerifyPlan) (clock : ℕ → α) (h : start (p.ctx α) = .ok t) :
    t.Counts p clock 0 0 ∧ t.point = .connecting ∧ t.parser.msg.Says [] := by
  obtain ⟨parser, hnew, hparser⟩ := newlineMsgParserNew_parsed
  rw [start, hnew, ok_bind] at h
  obtain rfl := Except.ok.inj h
  have hsmall := p.small
  have hsize : cInt ((p.rounds : ℤ)*p.connections) = (p.rounds*p.connections : ℕ) := by
    rw [← Nat.cast_mul]
    exact cInt_natCast _ (by omega)
  refine ⟨⟨rfl, rfl, rfl, rfl, rfl, ?_, rfl⟩, ?_, hparser.current⟩
  · show (rtaNew (cInt ((p.rounds : ℤ)*p.connections)) : ResponseTimesArray α).Holds _
    rw [hsize]
    exact ResponseTimesArray.rtaNew_holds _ (Nat.mul_pos p.roundsPos p.connectionsPos) (by omega)
  · exact if_pos (Int.natCast_pos.mpr p.connectionsPos)

/-- A round trip starts with its request on the way to `write`. -/
theorem nextRound_writes (h : t.Counts p clock k done) (hk : k < p.connections) (hn : n < p.rounds)
    (hcounter : t.ctx.roundtripPerConnectionCounter = n) (hj : t.j = n) :
    ∃ t', t.nextRound = .ok t' ∧ t'.Counts p clock k done ∧ t'.OnRound n ∧
      t'.WritesText (p.text k n) ∧ t'.stream = t.stream ∧ t'.parser = t.parser := by
  have hrounds := p.rounds_lt
  have hnext : cInt (t.j+1) = (n+1 : ℕ) := by
    rw [hj, ← Nat.cast_succ]
    exact cInt_natCast _ (by omega)
  have htext : clientText t.ctx.ident t.i (n+1 : ℕ) = p.text k n := by
    rw [h.ident, h.connection, VerifyPlan.text]
  have hfits := p.text_fits hk hn
  obtain ⟨request, hmake, hrequest⟩ := makeRequest_says t.ctx t.i (n+1 : ℕ) (by rwa [htext])
  rw [htext] at hrequest
  obtain ⟨iob, hserial, hiob⟩ := serialize_short hrequest hfits.pos (hfits.le.trans (by decide))
    hfits.free
  refine ⟨{ t with j := (n+1 : ℕ), point := .writing request iob }, ?_, h.congr rfl rfl rfl,
    ⟨hcounter, rfl⟩, ⟨request, iob, rfl, hrequest, hiob⟩, rfl, rfl⟩
  simp only [nextRound, hnext, hmake, ok_bind, mstreamWrite, hserial]

/-- The right answer passes, and the round trip is counted and timed. -/
theorem endRound_counts (h : t.Counts p clock k (k*p.rounds+n)) (hon : t.OnRound n)
    (hk : k < p.connections) (hn : n < p.rounds) {request response : NewLineMsg}
    (hrequest : request.Says (p.text k n))
    (hresponse : response.Says (serverResponse (p.text k n))) :
    ∃ t₁ : VerifyThread α, t.endRound clock request response =
        (if (p.rounds : ℤ) ≤ (n+1 : ℕ) then .ok (nextConnection { t₁ with i := cInt (t₁.i+1) })
          else nextRound t₁) ∧
      t₁.Counts p clock k (k*p.rounds+(n+1)) ∧
      t₁.ctx.roundtripPerConnectionCounter = (n+1 : ℕ) ∧ t₁.j = (n+1 : ℕ) ∧
      t₁.stream = t.stream ∧ t₁.parser = t.parser := by
  have hfits := p.text_fits hk hn
  have hlength := serverResponse_length (p.text k n)
  have hpos := hfits.pos
  have hle := hfits.le
  have hrounds := p.rounds_lt
  have hsmall := p.small
  have hdone := p.done_lt hk hn
  obtain ⟨iobReq, hserial, -⟩ := serialize_short hrequest hpos (by omega) hfits.free
  obtain ⟨iobResp, hserial', -⟩ := serialize_short hresponse (by omega) (by omega)
    (serverResponse_free hfits.free)
  have hverify := verifyResponse_answers hrequest hresponse hfits
  have hcount : t.printed.length = k*p.rounds+n := by
    rw [h.printed, List.length_replicate]
  have hadd := ResponseTimesArray.rtaAdd_okIff h.times (clock (k*p.rounds+n))
  obtain ⟨readings, hreadings⟩ := hadd.iff.mpr (by
    right
    dsimp only
    rw [List.length_map, List.length_range]
    omega)
  have htimes := hadd.result readings hreadings
  dsimp only at htimes
  rw [← List.map_singleton, ← List.map_append, ← List.range_succ] at htimes
  let ctx := verifyCtxIncrementTotalRoundTripCount
    (verifyCtxIncrementConnectionRoundTripCount { t.ctx with responseTimesRef := readings })
  let t₁ : VerifyThread α := { t with ctx := ctx, printed := t.printed ++ [true] }
  have hmax : ctx.maxRountripsPerConnection = p.rounds := h.maxRounds
  have hcounter : ctx.roundtripPerConnectionCounter = (n+1 : ℕ) := by
    show cInt (t.ctx.roundtripPerConnectionCounter+1) = _
    rw [hon.counter, ← Nat.cast_succ]
    exact cInt_natCast _ (by omega)
  refine ⟨t₁, ?_, ⟨h.ident, h.maxRounds, h.maxConnections, h.connection, ?_, htimes, ?_⟩, hcounter,
    hon.number, rfl, rfl⟩
  · rw [← hmax, ← hcounter, endRound, hserial, ok_bind, hserial', ok_bind, hverify, ok_bind, hcount,
      hreadings, ok_bind]
  · show cInt (t.ctx.totalRoundtrips+1) = _
    rw [h.total, ← Nat.cast_succ]
    exact cInt_natCast _ (by omega)
  · show t.printed ++ [true] = _
    rw [h.printed, ← Nat.add_assoc, List.replicate_succ']

theorem nextConnection_counts (h : t.Counts p clock k done) (hk : k < p.connections) :
    (nextConnection { t with i := cInt (t.i+1) }).Counts p clock (k+1) done ∧
      (nextConnection { t with i := cInt (t.i+1) }).point =
        if k+1 < p.connections then .connecting else .returned := by
  have hconnections := p.connections_lt
  have hi : cInt (t.i+1) = (k+1 : ℕ) := by
    rw [h.connection, ← Nat.cast_succ]
    exact cInt_natCast _ (by omega)
  refine ⟨⟨h.ident, h.maxRounds, h.maxConnections, hi, h.total, h.times, h.printed⟩, ?_⟩
  show (if cInt (t.i+1) < t.ctx.maxConnectionsPerThread then VerifyPoint.connecting
    else .returned) = _
  rw [hi, h.maxConnections]
  simp only [Nat.cast_lt]

/-- What follows the answer: the next request on the connection, the next connection, or the
end. -/
theorem endRound_goes_on (h : t.Counts p clock k (k*p.rounds+n)) (hon : t.OnRound n)
    (hk : k < p.connections) (hn : n < p.rounds) {request response : NewLineMsg}
    (hrequest : request.Says (p.text k n))
    (hresponse : response.Says (serverResponse (p.text k n))) :
    ∃ t', t.endRound clock request response = .ok t' ∧ t'.parser = t.parser ∧
      ((n+1 < p.rounds ∧ t'.Counts p clock k (k*p.rounds+(n+1)) ∧ t'.OnRound (n+1) ∧
          t'.WritesText (p.text k (n+1)) ∧ t'.stream = t.stream) ∨
        (n+1 = p.rounds ∧ t'.Counts p clock (k+1) ((k+1)*p.rounds) ∧
          t'.point = if k+1 < p.connections then .connecting else .returned)) := by
  obtain ⟨t₁, hend, hcounts, hcounter, hj, hstream, hparser⟩ :=
    endRound_counts h hon hk hn hrequest hresponse
  rw [hend]
  by_cases hlast : n+1 < p.rounds
  · rw [if_neg (by omega)]
    obtain ⟨t', hnext, hcounts', hon', hwrites, hstream', hparser'⟩ :=
      nextRound_writes hcounts hk hlast hcounter hj
    exact ⟨t', hnext, hparser'.trans hparser,
      .inl ⟨hlast, hcounts', hon', hwrites, hstream'.trans hstream⟩⟩
  · rw [if_pos (by omega)]
    have hall : n+1 = p.rounds := by omega
    have hthen : k*p.rounds+(n+1) = (k+1)*p.rounds := by
      rw [Nat.succ_mul, hall]
    rw [hthen] at hcounts
    obtain ⟨hcounts', hpoint⟩ := nextConnection_counts hcounts hk
    exact ⟨_, rfl, hparser, .inr ⟨hall, hcounts', hpoint⟩⟩

end VerifyThread

end CHttp
