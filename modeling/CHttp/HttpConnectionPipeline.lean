import CHttp.HttpConnectionPending

/-! Blocks with several messages, and blocks the parser rejects. -/
namespace CHttp

/-- The messages of one block all reach an owner who reads again after each: the block
delivers the first, each of the following reads one more, and the read after the
last message starts a new stream read. -/
def PipelinedDelivered (w : ConnectionWorld) (block : Bytes) (msgs : List HttpMessage)
    (cb arg : Pointer) : Prop :=
  ∃ t u, connectionMachine.Run w
      (.received block ⟨msgs, .ok⟩ :: List.replicate (msgs.length-1) (.read cb arg)) t ∧
    t.readCalls = w.readCalls ++ msgs.map (fun m => (some m, 0)) ∧ t.reading = none ∧
    t.exec (.read cb arg) = .ok u ∧ u.readCalls = t.readCalls ∧ u.reading = some readBufferSize

/-- Reading a queue empty leaves the connection in the active state, though no
stream read was started. -/
theorem run_queue_active (queue : List HttpMessage) (cb arg : Pointer) (w t : ConnectionWorld)
    (hq : w.readView.inputMessageList = queue) (hne : queue ≠ [])
    (h : connectionMachine.Run w (List.replicate queue.length (.read cb arg)) t) :
    t.readView.readState = .active := by
  induction queue generalizing w with
  | nil => exact absurd rfl hne
  | cons m rest ih =>
    cases h with
    | @cons _ u _ _ _ hen hx hr =>
      have hstep := exec_readStep w u (.read cb arg) hen hx
      generalize hv : u.readView = v at hstep
      cases hstep with
      | start cb arg iob hv' hcb hq' hiob => rw [hq] at hq'; cases hq'
      | last cb arg m' hv' hq' =>
        rw [hq] at hq'
        cases hq'
        cases hr
        rw [hv]
        rfl
      | queued cb arg m' rest' hv' hq' hr' =>
        rw [hq] at hq'
        cases hq'
        exact ih u (by rw [hv]; rfl) hr' hr

/-- Of the messages of one block, all are delivered and the connection can go on reading
exactly when there is only one: the read that takes the last of several from the
queue leaves the connection active, and the next read fails its first assertion. -/
theorem pipelined_delivered_iff (es : List ConnectionEvent) (w : ConnectionWorld)
    (h : connectionMachine.Run .init es w) (length : ℤ) (hl : w.reading = some length)
    (harg : w.conn.onReadCbArg ≠ none) (block : Bytes) (hpos : 0 < block.length)
    (hle : block.length ≤ length) (msgs : List HttpMessage) (hm : msgs ≠ [])
    (cb arg : Pointer) (hcb : cb ≠ none) :
    PipelinedDelivered w block msgs cb arg ↔ msgs.length = 1 := by
  have hs := run_sound h
  obtain ⟨m, rest, rfl⟩ := List.exists_cons_of_ne_nil hm
  have hen : w.Enabled (.received block ⟨m :: rest, .ok⟩) := ⟨length, hl, hpos, hle⟩
  obtain ⟨v, hv⟩ := received_delivers w length hs hl harg block hpos hle m rest
  obtain ⟨hready, hqueue, hreading, hcalls⟩ := received_view hs hl (exec_readStep w v _ hen hv)
  constructor
  · rintro ⟨t, u, hrun, -, -, hexec, -⟩
    by_contra hne
    have hrest : rest ≠ [] := by
      rintro rfl
      exact hne rfl
    cases hrun with
    | cons _ hx hr =>
      obtain rfl : v = _ := Except.ok.inj (hv.symm.trans hx)
      have hactive := run_queue_active rest cb arg v t hqueue hrest hr
      rw [read_active_aborts t (by rw [hactive]; decide) cb arg hcb] at hexec
      cases hexec
  · intro hone
    obtain rfl : rest = [] := List.length_eq_zero_iff.mp (by simpa using hone)
    obtain ⟨u, hu, hur, -, -, huc⟩ := read_starts v hready hqueue cb arg hcb
    exact ⟨v, u, .cons hen hv (.nil v), hcalls, hreading, hu, huc, hur⟩

theorem pipelined_delivered_one :
    ∃ w, connectionMachine.Run .init [.read (some 0) (some 0)] w ∧
      PipelinedDelivered w (ascii "G") [bareMessage] (some 0) (some 0) := by
  obtain ⟨w, hw, hreading, harg, -⟩ := run_first_read
  exact ⟨w, hw, (pipelined_delivered_iff _ w hw readBufferSize hreading harg (ascii "G") (by decide)
    (by decide) [bareMessage] (by simp) (some 0) (some 0) (by simp)).mpr rfl⟩

/-- Two requests in one block: the second is delivered, and the read after it aborts. -/
theorem pipelined_second_aborts :
    ∃ w, connectionMachine.Run .init [.read (some 0) (some 0),
        .received (ascii "G") ⟨[bareMessage, bareMessage], .ok⟩, .read (some 0) (some 0)] w ∧
      w.readCalls = [(some bareMessage, 0), (some bareMessage, 0)] ∧
      w.exec (.read (some 0) (some 0)) =
        .error (.assertion "cref->read_state == READ_STATE_IDLE") := by
  obtain ⟨w, hw, hreading, harg, hnone⟩ := run_first_read
  have hen : w.Enabled (.received (ascii "G") ⟨[bareMessage, bareMessage], .ok⟩) :=
    ⟨readBufferSize, hreading, by decide, by decide⟩
  obtain ⟨v, hv⟩ := received_delivers w readBufferSize (run_sound hw) hreading harg (ascii "G")
    (by decide) (by decide) bareMessage [bareMessage]
  obtain ⟨hready, hqueue, -, hcalls⟩ :=
    received_view (run_sound hw) hreading (exec_readStep w v _ hen hv)
  obtain ⟨u, hu, hactive, hcalls'⟩ :=
    read_takes_last v hready bareMessage hqueue (some 0) (some 0) (by simp) (by simp)
  refine ⟨u, hw.append (.cons hen hv (.cons trivial hu (.nil u))), ?_,
    read_active_aborts u (by rw [hactive]; decide) _ _ (by simp)⟩
  change u.readView.readCalls = _
  rw [hcalls', hcalls, hnone]
  rfl

/-- A block on which the parser fails is reported to the pending read: the buffer is
released and the callback gets no message and a non-zero status. -/
def ErrorReported (w : ConnectionWorld) (block : Bytes) (parsed : Parsed) : Prop :=
  ∃ u status, w.exec (.received block parsed) = .ok u ∧ u.conn.activeInputBuffer = none ∧
    status ≠ 0 ∧ u.readCalls = w.readCalls ++ [(none, status)]

/-- No parse error is ever reported: whatever the error code and the messages before it,
the block is still in the buffer and the assertion on its length fails. -/
theorem parse_error_never_reported (es : List ConnectionEvent) (w : ConnectionWorld)
    (h : connectionMachine.Run .init es w) (length : ℤ) (hl : w.reading = some length)
    (block : Bytes) (hpos : 0 < block.length) (hle : block.length ≤ length) (parsed : Parsed)
    (hp : parsed.errno ≠ .ok) :
    ¬ErrorReported w block parsed ∧ w.exec (.received block parsed) =
      .error (.assertion "IOBuffer_data_len(cref->active_input_buffer_ref) == 0") := by
  have herr := received_error w length (run_sound h) hl block hpos hle parsed hp
  refine ⟨?_, herr⟩
  rintro ⟨u, status, hu, -⟩
  rw [herr] at hu
  cases hu

theorem parse_error_never_reported_first :
    ∃ w, connectionMachine.Run .init [.read (some 0) (some 0)] w ∧
      ¬ErrorReported w (ascii "?") ⟨[], .invalidMethod⟩ := by
  obtain ⟨w, hw, hreading, -⟩ := run_first_read
  exact ⟨w, hw, (parse_error_never_reported _ w hw readBufferSize hreading (ascii "?") (by decide)
    (by decide) ⟨[], .invalidMethod⟩ (by decide)).1⟩

/-- A first block of one stray byte. -/
theorem stray_byte_aborts :
    ∃ w, connectionMachine.Run .init [.read (some 0) (some 0)] w ∧
      w.exec (.received (ascii "?") ⟨[], .invalidMethod⟩) =
        .error (.assertion "IOBuffer_data_len(cref->active_input_buffer_ref) == 0") := by
  obtain ⟨w, hw, hreading, -⟩ := run_first_read
  exact ⟨w, hw, received_error w readBufferSize (run_sound hw) hreading (ascii "?") (by decide)
    (by decide) ⟨[], .invalidMethod⟩ (by decide)⟩

end CHttp
