import CHttp.HttpConnectionRead

/-! Pending reads: what holds while a stream read is outstanding, what a received
block does, and when a pending read is left stuck. -/
namespace CHttp

/-- While a stream read is outstanding, its callback is set, the queue is empty and
the input buffer is new. -/
def ReadView.Sound (v : ReadView) : Prop :=
  ∀ length, v.reading = some length → length = readBufferSize ∧ v.readState = .active ∧
    v.onReadCb ≠ none ∧ v.inputMessageList = [] ∧
    ∃ iob, v.activeInputBuffer = some iob ∧ iob.Holds readBufferSize []

theorem ReadView.Sound.idle {v : ReadView} (hs : v.Sound) (hr : v.Ready) : v.reading = none := by
  by_contra hne
  obtain ⟨length, hlen⟩ := Option.ne_none_iff_exists'.mp hne
  have hactive := (hs length hlen).2.1
  rw [hr.state] at hactive
  cases hactive

theorem ReadStep.sound {v v' : ReadView} {e : ConnectionEvent} (h : ReadStep v e v')
    (hs : v.Sound) : v'.Sound := by
  intro length hlen
  cases h with
  | start cb arg iob hv hcb hq hiob =>
    cases hlen
    exact ⟨rfl, rfl, Option.isSome_iff_ne_none.mp hcb, hq, iob, rfl, hiob⟩
  | last cb arg m hv hq => exact absurd ((hs.idle hv).symm.trans hlen) (by simp)
  | queued cb arg m rest hv hq hr => exact absurd ((hs.idle hv).symm.trans hlen) (by simp)
  | deliver => cases hlen
  | nothing => cases hlen
  | eof => cases hlen
  | failed => cases hlen
  | write => exact hs length hlen
  | written => exact hs length hlen
  | writeFailed => exact hs length hlen
  | runPosted => exact hs length hlen

theorem sound_init : ConnectionWorld.init.readView.Sound := by
  intro length h
  cases h

theorem run_sound {w : ConnectionWorld} {es : List ConnectionEvent}
    (h : connectionMachine.Run .init es w) : w.readView.Sound :=
  h.keeps (I := fun w => w.readView.Sound)
    (fun s e t hs he hx => (exec_readStep s t e he hx).sound hs) sound_init

/-- A pending read has a stream read behind it. -/
def ReadView.Live (v : ReadView) : Prop := v.onReadCb ≠ none → v.reading ≠ none

/-- A block that parses without error completes at least one message. -/
def ConnectionEvent.CompletesMessage : ConnectionEvent → Prop
  | .received _ parsed => parsed.errno = .ok → parsed.messages ≠ []
  | _ => True

theorem ReadStep.live {v v' : ReadView} {e : ConnectionEvent} (h : ReadStep v e v') (hl : v.Live)
    (he : e.CompletesMessage) : v'.Live := by
  intro hcb
  cases h with
  | start => simp
  | last => exact absurd rfl hcb
  | queued => exact absurd rfl hcb
  | deliver => exact absurd rfl hcb
  | nothing block msgs hq =>
    exact absurd (List.append_eq_nil_iff.mp hq).2 (he rfl)
  | eof => exact absurd rfl hcb
  | failed => exact absurd rfl hcb
  | write => exact hl hcb
  | written => exact hl hcb
  | writeFailed => exact hl hcb
  | runPosted => exact hl hcb

/-- A clean block without a message strands the read that waited for it. -/
theorem ReadStep.stuck {v v' : ReadView} {block : Bytes} {length : ℤ}
    (h : ReadStep v (.received block ⟨[], .ok⟩) v') (hs : v.Sound)
    (hr : v.reading = some length) : ¬v'.Live := by
  obtain ⟨-, -, hcb, hq, -⟩ := hs length hr
  intro hl
  cases h with
  | deliver _ _ m rest hne => simp [hq] at hne
  | nothing => exact hl hcb rfl

/-- A run passes only through states where a pending read has a stream read behind it,
exactly when each block it receives without a parse error completes a message. -/
theorem read_never_stuck_iff (es : List ConnectionEvent) (w : ConnectionWorld)
    (h : connectionMachine.Run .init es w) :
    (∀ pre post t, es = pre ++ post → connectionMachine.Run .init pre t → t.readView.Live) ↔
      ∀ e ∈ es, e.CompletesMessage := by
  constructor
  · intro hlive e he
    obtain ⟨pre, post, rfl⟩ := List.append_of_mem he
    obtain ⟨t, hpre, hpost⟩ := h.split
    cases hpost with
    | @cons _ u _ _ _ hen hx _ =>
      cases e with
      | received block parsed =>
        intro hok hnil
        obtain ⟨msgs, errno⟩ := parsed
        obtain rfl : errno = .ok := hok
        obtain rfl : msgs = [] := hnil
        obtain ⟨length, hlen, -⟩ := id hen
        refine (exec_readStep t u (.received block ⟨[], .ok⟩) hen hx).stuck (run_sound hpre) hlen ?_
        exact hlive (pre ++ [_]) post u (by simp) (hpre.append (.cons hen hx (.nil u)))
      | _ => trivial
  · intro hall pre post t hsplit hpre
    refine hpre.invariant (I := fun w => w.readView.Live) (A := ConnectionEvent.CompletesMessage)
      (fun s e t hl he hen hx => (exec_readStep s t e hen hx).live hl he) ?_ ?_
    · intro hcb
      exact absurd rfl hcb
    · intro e he
      exact hall e (hsplit ▸ List.mem_append_left _ he)

section forward

variable (w : ConnectionWorld)

/-- `http_connection_read` on an idle connection with an empty queue starts a read. -/
theorem read_starts (hr : w.readView.Ready) (hq : w.readView.inputMessageList = [])
    (cb arg : Pointer) (hcb : cb ≠ none) :
    ∃ u, w.exec (.read cb arg) = .ok u ∧ u.readView.reading = some readBufferSize ∧
      u.readView.onReadCb = cb ∧ u.readView.onReadCbArg = arg ∧
      u.readView.readCalls = w.readView.readCalls := by
  obtain ⟨iob, hnew, hh, hspace⟩ := inputBuffer_new
  have hlen : iobufferDataLen iob = 0 := hh.remaining
  have hq' : w.conn.inputMessageList = [] := hq
  have hread : httpConnectionRead w.conn cb arg = .ok ({ w.conn with
      onReadCb := cb, onReadCbArg := arg, readState := .active, activeInputBuffer := some iob },
      [.asioStreamRead readBufferSize]) := by
    have hstate : w.conn.readState = .idle := hr.state
    have hbuf : w.conn.activeInputBuffer = none := hr.buffer
    have hon : w.conn.onReadCb = none := hr.cb
    have harg : w.conn.onReadCbArg = none := hr.arg
    simp only [httpConnectionRead, Option.isSome_iff_ne_none.mpr hcb, hstate, hbuf, hon, harg, hq',
      decide_true, Option.isNone_none, cAssert_true, ok_bind, hnew, hlen, hspace]
  refine ⟨_, (after_eq_ok _ _ _).mpr ⟨_, hread, rfl⟩, rfl, rfl, rfl, rfl⟩

theorem read_takes_last (hr : w.readView.Ready) (m : HttpMessage)
    (hq : w.readView.inputMessageList = [m]) (cb arg : Pointer) (hcb : cb ≠ none)
    (harg : arg ≠ none) :
    ∃ u, w.exec (.read cb arg) = .ok u ∧ u.readView.readState = .active ∧
      u.readView.readCalls = w.readView.readCalls ++ [(some m, 0)] := by
  have hstate : w.conn.readState = .idle := hr.state
  have hbuf : w.conn.activeInputBuffer = none := hr.buffer
  have hon : w.conn.onReadCb = none := hr.cb
  have hnone : w.conn.onReadCbArg = none := hr.arg
  have hq' : w.conn.inputMessageList = [m] := hq
  have hread : httpConnectionRead w.conn cb arg = .ok ({ w.conn with
      inputMessageList := [], readState := .active, onReadCb := none, onReadCbArg := none },
      [.readCb (some m) 0]) := by
    simp only [httpConnectionRead, Option.isSome_iff_ne_none.mpr hcb, hstate, hbuf, hon, hnone,
      hq', decide_true, Option.isNone_none, cAssert_true, ok_bind, callOnReadCb,
      Option.isSome_iff_ne_none.mpr harg]
  exact ⟨_, (after_eq_ok _ _ _).mpr ⟨_, hread, rfl⟩, rfl, rfl⟩

theorem read_active_aborts (hs : w.readView.readState ≠ .idle) (cb arg : Pointer)
    (hcb : cb ≠ none) :
    w.exec (.read cb arg) = .error (.assertion "cref->read_state == READ_STATE_IDLE") := by
  have hs' : ¬(w.conn.readState = .idle) := hs
  simp only [ConnectionWorld.exec, ConnectionWorld.after, httpConnectionRead,
    Option.isSome_iff_ne_none.mpr hcb, cAssert_true, ok_bind, decide_eq_false hs', cAssert_false,
    error_bind]

/-- The buffer after a block has come in. -/
theorem receive_commit (length : ℤ) (hs : w.readView.Sound) (hl : w.reading = some length)
    (block : Bytes) (hpos : 0 < block.length) (hle : block.length ≤ length) :
    ∃ filled committed, w.conn.receive block =
        .ok { w.conn with activeInputBuffer := some filled } ∧
      iobufferCommit filled block.length = .ok committed ∧
      committed.Holds readBufferSize (block.map some) := by
  obtain ⟨rfl, -, -, -, iob, hiob, hholds⟩ := hs length hl
  have hbuf : w.conn.activeInputBuffer = some iob := hiob
  obtain ⟨filled, committed, hfill, hcommit, hh⟩ := iobufferFillSpace_commit iob readBufferSize []
    (block.map some) hholds (by simpa using List.ne_nil_of_length_pos hpos)
    (by simpa using hle)
  rw [List.length_map] at hcommit
  refine ⟨filled, committed, ?_, hcommit, hh⟩
  simp only [HttpConnection.receive, hbuf, hfill, ok_bind]

/-- A block with a parse error leaves its bytes in the buffer, and the assertion that
they are gone ends the program. -/
theorem received_error (length : ℤ) (hs : w.readView.Sound) (hl : w.reading = some length)
    (block : Bytes) (hpos : 0 < block.length) (hle : block.length ≤ length)
    (parsed : Parsed) (hp : parsed.errno ≠ .ok) :
    w.exec (.received block parsed) =
      .error (.assertion "IOBuffer_data_len(cref->active_input_buffer_ref) == 0") := by
  obtain ⟨filled, committed, hrecv, hcommit, hh⟩ := receive_commit w length hs hl block hpos hle
  have hcount := (iobufferCommit_dataLen hcommit).2
  have hne : ¬(iobufferDataLen committed = 0) := by omega
  have h0 : ¬((block.length : ℤ) = 0) := by omega
  have h1 : ¬((block.length : ℤ) < 0) := by omega
  simp only [ConnectionWorld.exec, ConnectionWorld.after, hrecv, ok_bind, readHaveDataCb, if_neg h0,
    if_neg h1, Int.toNat_natCast, hcommit, httpMessageParserConsumeBuffer, if_neg hp,
    decide_eq_false hne, cAssert_false, error_bind]

/-- A block without an error is consumed whole, and only then its messages matter. -/
theorem received_clean (length : ℤ) (hs : w.readView.Sound) (hl : w.reading = some length)
    (block : Bytes) (hpos : 0 < block.length) (hle : block.length ≤ length)
    (msgs : List HttpMessage) :
    (w.conn.receive block >>= fun conn => readHaveDataCb conn block.length ⟨msgs, .ok⟩) =
      match msgs with
      | [] => .ok ({ w.conn with activeInputBuffer := none }, [])
      | m :: rest => callOnReadCb { w.conn with
          activeInputBuffer := none, inputMessageList := rest, readState := .idle } m 0 := by
  obtain ⟨filled, committed, hrecv, hcommit, hh⟩ := receive_commit w length hs hl block hpos hle
  obtain ⟨-, -, -, hq, -⟩ := hs length hl
  have hq' : w.conn.inputMessageList = [] := hq
  have h0 : ¬((block.length : ℤ) = 0) := by omega
  have h1 : ¬((block.length : ℤ) < 0) := by omega
  have hlen : iobufferDataLen committed = block.length := by
    rw [iobufferDataLen, hh.remaining, List.length_map]
  have hcons := iobufferConsume_all committed _ _ hh
  rw [List.length_map] at hcons
  simp only [hrecv, ok_bind, readHaveDataCb, if_neg h0, if_neg h1, Int.toNat_natCast, hcommit,
    httpMessageParserConsumeBuffer, ↓reduceIte, hlen, hcons]
  simp only [iobufferDataLen, decide_true, cAssert_true, ok_bind, hq', List.nil_append]
  cases msgs <;> rfl

theorem received_delivers (length : ℤ) (hs : w.readView.Sound) (hl : w.reading = some length)
    (harg : w.readView.onReadCbArg ≠ none) (block : Bytes) (hpos : 0 < block.length)
    (hle : block.length ≤ length) (m : HttpMessage) (rest : List HttpMessage) :
    ∃ u, w.exec (.received block ⟨m :: rest, .ok⟩) = .ok u := by
  obtain ⟨-, -, hcb, -⟩ := hs length hl
  have hcall := (callOnReadCb_eq_ok { w.conn with
    activeInputBuffer := none, inputMessageList := rest, readState := .idle } (some m) 0 _).mpr
    ⟨Option.isSome_iff_ne_none.mpr hcb, Option.isSome_iff_ne_none.mpr harg, rfl⟩
  exact ⟨_, (after_eq_ok _ _ _).mpr
    ⟨_, (received_clean w length hs hl block hpos hle _).trans hcall, rfl⟩⟩

theorem received_nothing (length : ℤ) (hs : w.readView.Sound) (hl : w.reading = some length)
    (block : Bytes) (hpos : 0 < block.length) (hle : block.length ≤ length) :
    ∃ u, w.exec (.received block ⟨[], .ok⟩) = .ok u :=
  ⟨_, (after_eq_ok _ _ _).mpr ⟨_, received_clean w length hs hl block hpos hle [], rfl⟩⟩

end forward

/-- The owner's first read, on a new connection. -/
theorem run_first_read : ∃ w, connectionMachine.Run .init [.read (some 0) (some 0)] w ∧
    w.reading = some readBufferSize ∧ w.readView.onReadCbArg ≠ none ∧ w.readView.readCalls = [] := by
  obtain ⟨w, hw, hreading, -, harg, hcalls⟩ :=
    read_starts .init ⟨rfl, rfl, rfl, rfl⟩ rfl (some 0) (some 0) (by simp)
  exact ⟨w, .cons trivial hw (.nil w), hreading, by rw [harg]; simp, hcalls⟩

/-- The read side right after a block has delivered its first message. -/
theorem received_view {w t : ConnectionWorld} {block : Bytes} {m : HttpMessage}
    {rest : List HttpMessage} {length : ℤ} (hs : w.readView.Sound)
    (hl : w.reading = some length)
    (h : ReadStep w.readView (.received block ⟨m :: rest, .ok⟩) t.readView) :
    t.readView.Ready ∧ t.readView.inputMessageList = rest ∧ t.readView.reading = none ∧
      t.readView.readCalls = w.readView.readCalls ++ [(some m, 0)] := by
  obtain ⟨-, -, -, hq, -⟩ := hs length hl
  generalize t.readView = v at h
  cases h with
  | deliver block msgs m' rest' hq' =>
    rw [hq] at hq'
    cases hq'
    exact ⟨⟨rfl, rfl, rfl, rfl⟩, rfl, rfl, rfl⟩
  | nothing block msgs hq' => simp at hq'

/-- A message without headers or body. -/
def bareMessage : HttpMessage := httpMessageNew ⟨true, 0, .get⟩

/-- A read, a block with a message for it, and the next read. -/
theorem read_never_stuck_again :
    ∃ w, connectionMachine.Run .init [.read (some 0) (some 0),
        .received (ascii "G") ⟨[bareMessage], .ok⟩, .read (some 1) (some 1)] w ∧
      w.readCalls = [(some bareMessage, 0)] ∧ w.reading = some readBufferSize ∧
      ∀ pre post t, [ConnectionEvent.read (some 0) (some 0),
          .received (ascii "G") ⟨[bareMessage], .ok⟩, .read (some 1) (some 1)] = pre ++ post →
        connectionMachine.Run .init pre t → t.readView.Live := by
  obtain ⟨w, hw, hreading, harg, hnone⟩ := run_first_read
  have hen : w.Enabled (.received (ascii "G") ⟨[bareMessage], .ok⟩) :=
    ⟨readBufferSize, hreading, by decide, by decide⟩
  obtain ⟨v, hv⟩ := received_delivers w readBufferSize (run_sound hw) hreading harg (ascii "G")
    (by decide) (by decide) bareMessage []
  obtain ⟨hready, hqueue, -, hcalls⟩ :=
    received_view (run_sound hw) hreading (exec_readStep w v _ hen hv)
  obtain ⟨u, hu, hreading', -, -, hcalls'⟩ :=
    read_starts v hready hqueue (some 1) (some 1) (by simp)
  have hrun : connectionMachine.Run .init [.read (some 0) (some 0),
      .received (ascii "G") ⟨[bareMessage], .ok⟩, .read (some 1) (some 1)] u :=
    hw.append (.cons hen hv (.cons trivial hu (.nil u)))
  refine ⟨u, hrun, ?_, hreading', (read_never_stuck_iff _ u hrun).mpr ?_⟩
  · change u.readView.readCalls = _
    rw [hcalls', hcalls, hnone]
    rfl
  · intro e he
    simp only [List.mem_cons, List.not_mem_nil, or_false] at he
    rcases he with rfl | rfl | rfl
    · trivial
    · intro _
      exact List.cons_ne_nil _ _
    · trivial

/-- One byte that completes nothing: the read callback stays set, and nothing is
under way that could ever call it. -/
theorem read_stuck_after_byte :
    ∃ w, connectionMachine.Run .init
        [.read (some 0) (some 0), .received (ascii "G") ⟨[], .ok⟩] w ∧
      w.conn.onReadCb ≠ none ∧ w.reading = none := by
  obtain ⟨w, hw, hreading, -⟩ := run_first_read
  have hen : w.Enabled (.received (ascii "G") ⟨[], .ok⟩) :=
    ⟨readBufferSize, hreading, by decide, by decide⟩
  obtain ⟨u, hu⟩ := received_nothing w readBufferSize (run_sound hw) hreading (ascii "G") (by decide)
    (by decide)
  refine ⟨u, hw.append (.cons hen hu (.nil u)), ?_⟩
  have hstuck := (exec_readStep w u _ hen hu).stuck (run_sound hw) hreading
  simpa [ReadView.Live, ConnectionWorld.readView] using hstuck

end CHttp
