import CHttp.Runs
import CHttp.IOBuffer

/-! `http_syncsocket_read_message`: the messages that the parser has completed wait in a queue,
and the socket is read only while the queue is empty. The parser is any function of its state
and of the bytes of a block. -/
namespace CHttp

/-- What the parser makes of a block: the messages that it hands to `on_new_message`, in order,
and the status that it returns. -/
structure Execution (σ M : Type) where
  parser : σ
  messages : List M
  status : ℤ

/-- `HttpSyncSocket_s`, as far as reading uses it. -/
structure HttpSyncSocket (σ M : Type) where
  parserRef : σ
  inputMessageList : List M

/-- A `read` that ended: the bytes that it stored, or a count that is not positive. -/
inductive SocketRead where
  | data (block : Bytes)
  | nothing (bytesRead : ℤ)

def syncBufferSize : ℕ := 20000

section source

variable {σ M : Type}

/-- `on_new_message`. -/
def syncOnNewMessage (clientRef : HttpSyncSocket σ M) (msg : M) : HttpSyncSocket σ M :=
  { clientRef with inputMessageList := clientRef.inputMessageList ++ [msg] }

/-- `http_message_parser_consume_buffer`, called for a socket. -/
def syncConsumeBuffer (execute : σ → List Cell → Execution σ M) (clientRef : HttpSyncSocket σ M)
    (iob : IOBuffer) : Res (HttpSyncSocket σ M × ℤ) := do
  let run := execute clientRef.parserRef (iobufferData iob)
  let clientRef := run.messages.foldl syncOnNewMessage { clientRef with parserRef := run.parser }
  if run.status = 0 then do
    let _ ← iobufferConsume iob (iobufferDataLen iob)
    .ok (clientRef, run.status)
  else .ok (clientRef, run.status)

/-- A `read` that stored bytes, up to the status of the parser. -/
def syncReadBlock (execute : σ → List Cell → Execution σ M) (clientRef : HttpSyncSocket σ M)
    (block : Bytes) : Res (HttpSyncSocket σ M × ℤ) := do
  let iob ← iobufferNewWithCapacity syncBufferSize
  let iob ← iobufferFillSpace iob (block.map some)
  let iob ← iobufferCommit iob block.length
  syncConsumeBuffer execute clientRef iob

end source

/-- A `read` of a call, with the status that the parser gave if it was asked. -/
structure ReadRecord where
  bytesRead : ℤ
  status : Option ℤ

/-- The read gave nothing, or an error of the parser. -/
def ReadRecord.Fails (r : ReadRecord) : Prop := r.bytesRead ≤ 0 ∨ ∃ rc, r.status = some rc ∧ rc ≠ 0

/-- A call that has returned: the messages that were queued when it was made, its reads, its
result and what it stored through `msg_ref_ptr`. -/
structure CallRecord (M : Type) where
  queued : List M
  reads : List ReadRecord
  rc : ℤ
  msgRef : Option M

/-- Result 0 comes with a message; any other result is -1, with no message queued when the call
was made and after a read that failed. -/
structure CallRecord.Explained {M : Type} (c : CallRecord M) : Prop where
  found : c.rc = 0 → c.msgRef.isSome
  failed : c.rc ≠ 0 → c.rc = -1 ∧ c.queued = [] ∧ ∃ r ∈ c.reads, r.Fails

/-- A call that waits in `read`. -/
structure OpenCall (M : Type) where
  queued : List M
  reads : List ReadRecord

/-- A socket with the call it is in, the messages that its parser has completed and the calls
that have returned. -/
structure SyncWorld (σ M : Type) where
  clientRef : HttpSyncSocket σ M
  reading : Option (OpenCall M)
  completed : List M
  calls : List (CallRecord M)

inductive SyncEvent where
  | call
  | read (result : SocketRead)

namespace SyncWorld

variable {σ M : Type}

def init (parser : σ) : SyncWorld σ M := ⟨⟨parser, []⟩, none, [], []⟩

def leave (w : SyncWorld σ M) (call : OpenCall M) (rc : ℤ) (msgRef : Option M) : SyncWorld σ M :=
  { w with reading := none, calls := w.calls ++ [⟨call.queued, call.reads, rc, msgRef⟩] }

/-- The top of the loop of `http_syncsocket_read_message`: it returns the first message of the
queue, or goes on to `read`. -/
def loop (w : SyncWorld σ M) (call : OpenCall M) : SyncWorld σ M :=
  match w.clientRef.inputMessageList with
  | m :: rest =>
    { w with clientRef := { w.clientRef with inputMessageList := rest } }.leave call 0 (some m)
  | [] => { w with reading := some call }

/-- The rest of the loop's body, from `read` on. -/
def gotRead (execute : σ → List Cell → Execution σ M) (w : SyncWorld σ M) (call : OpenCall M) :
    SocketRead → Res (SyncWorld σ M)
  | .nothing bytesRead =>
    .ok (w.leave { call with reads := call.reads ++ [⟨bytesRead, none⟩] } (-1) none)
  | .data block => do
    let (clientRef, rc) ← syncReadBlock execute w.clientRef block
    let completed := w.completed ++ (execute w.clientRef.parserRef (block.map some)).messages
    let call := { call with reads := call.reads ++ [⟨block.length, some rc⟩] }
    let w := { w with clientRef := clientRef, completed := completed }
    if rc ≠ 0 then .ok (w.leave call (-1) none) else .ok (w.loop call)

def exec (execute : σ → List Cell → Execution σ M) (w : SyncWorld σ M) :
    SyncEvent → Res (SyncWorld σ M)
  | .call => .ok (w.loop ⟨w.clientRef.inputMessageList, []⟩)
  | .read result =>
    match w.reading with
    | none => .ok w
    | some call => w.gotRead execute call result

/-- The next call is made once the last one has returned; a `read` ends while one is under way
and gives at most as many bytes as it asked for. -/
def Enabled (w : SyncWorld σ M) : SyncEvent → Prop
  | .call => w.reading.isNone
  | .read (.data block) => w.reading.isSome ∧ block ≠ [] ∧ block.length ≤ syncBufferSize
  | .read (.nothing bytesRead) => w.reading.isSome ∧ bytesRead ≤ 0

/-- The messages returned with result 0, in order. -/
def returned (w : SyncWorld σ M) : List M :=
  w.calls.filterMap fun c => if c.rc = 0 then c.msgRef else none

/-- What the calls have returned and what waits in the queue are the messages of the parser. -/
structure InOrder (w : SyncWorld σ M) : Prop where
  messages : w.completed = w.returned ++ w.clientRef.inputMessageList
  calls : ∀ c ∈ w.calls, c.Explained
  reading : ∀ call, w.reading = some call → w.clientRef.inputMessageList = []

end SyncWorld

def syncMachine {σ M : Type} (execute : σ → List Cell → Execution σ M) :
    Machine (SyncWorld σ M) SyncEvent Fault where
  enabled := SyncWorld.Enabled
  exec := SyncWorld.exec execute

section steps

variable {σ M : Type} {execute : σ → List Cell → Execution σ M}

theorem foldl_syncOnNewMessage (clientRef : HttpSyncSocket σ M) (msgs : List M) :
    msgs.foldl syncOnNewMessage clientRef =
      { clientRef with inputMessageList := clientRef.inputMessageList ++ msgs } := by
  induction msgs generalizing clientRef with
  | nil => rw [List.foldl_nil, List.append_nil]
  | cons m msgs ih => rw [List.foldl_cons, ih, syncOnNewMessage, List.append_assoc]; rfl

/-- A block that `read` may give goes through the buffer to the parser. -/
theorem syncReadBlock_eq (clientRef : HttpSyncSocket σ M) {block : Bytes} (hne : block ≠ [])
    (hle : block.length ≤ syncBufferSize) :
    let run := execute clientRef.parserRef (block.map some)
    syncReadBlock execute clientRef block =
      .ok (⟨run.parser, clientRef.inputMessageList ++ run.messages⟩, run.status) := by
  intro run
  have hcells : block.map some ≠ [] := by simpa using hne
  obtain ⟨iob, hnew, hiob⟩ := iobufferInit_holds syncBufferSize (by decide)
  obtain ⟨filled, iob', hfill, hcommit, hiob'⟩ := iobufferFillSpace_commit iob _ _ _ hiob hcells
    (by simpa using hle)
  rw [List.length_map] at hcommit
  have hconsume : iobufferConsume iob' (iobufferDataLen iob') =
      .ok { iob' with bufferRemaining := 0 } := by
    rw [iobufferDataLen, hiob'.remaining]
    exact iobufferConsume_all iob' _ _ hiob'
  rw [syncReadBlock, hnew, ok_bind, hfill, ok_bind, hcommit, ok_bind, syncConsumeBuffer,
    hiob'.data, hconsume, List.nil_append, foldl_syncOnNewMessage, ok_bind, ite_self]

namespace SyncWorld

/-- The loop is at its top, in a call whose queue was empty on entry if it has read before. -/
structure AtTop (w : SyncWorld σ M) (call : OpenCall M) : Prop where
  messages : w.completed = w.returned ++ w.clientRef.inputMessageList
  calls : ∀ c ∈ w.calls, c.Explained
  entry : w.clientRef.inputMessageList = [] → call.queued = []

/-- What is known between two events. -/
structure Known (w : SyncWorld σ M) : Prop extends InOrder w where
  entry : ∀ call, w.reading = some call → call.queued = []

theorem returned_leave (w : SyncWorld σ M) (call : OpenCall M) (rc : ℤ) (msgRef : Option M) :
    (w.leave call rc msgRef).returned = w.returned ++ (if rc = 0 then msgRef else none).toList := by
  rw [returned, leave, List.filterMap_append, returned]
  cases h : (if rc = 0 then msgRef else none) with
  | none => simp [h]
  | some m => simp [h]

/-- A call that is not in `read` has returned, with one more record. -/
theorem leave_known {w : SyncWorld σ M} {call : OpenCall M} {rc : ℤ} {msgRef : Option M}
    (hmessages : w.completed =
      w.returned ++ ((if rc = 0 then msgRef else none).toList ++ w.clientRef.inputMessageList))
    (hcalls : ∀ c ∈ w.calls, c.Explained)
    (hnew : (⟨call.queued, call.reads, rc, msgRef⟩ : CallRecord M).Explained) :
    (w.leave call rc msgRef).Known where
  messages := by
    rw [returned_leave, List.append_assoc]
    exact hmessages
  calls := List.forall_mem_append.mpr ⟨hcalls, List.forall_mem_singleton.mpr hnew⟩
  reading := fun call' hcall' => by cases hcall'
  entry := fun call' hcall' => by cases hcall'

theorem leave_failed {w : SyncWorld σ M} {call : OpenCall M} (h : w.AtTop call)
    (hqueued : call.queued = []) (hfails : ∃ r ∈ call.reads, r.Fails) :
    (w.leave call (-1) none).Known := by
  refine leave_known ?_ h.calls ⟨fun hrc => ?_, fun _ => ⟨rfl, hqueued, hfails⟩⟩
  · rw [ite_self]
    exact h.messages
  · cases hrc

theorem loop_known {w : SyncWorld σ M} {call : OpenCall M} (h : w.AtTop call) :
    (w.loop call).Known := by
  rw [loop]
  split
  next m rest hlist =>
    refine leave_known ?_ h.calls ⟨fun _ => rfl, fun hrc => absurd rfl hrc⟩
    exact h.messages.trans (congrArg _ hlist)
  next hlist =>
    refine ⟨⟨h.messages, h.calls, fun _ _ => hlist⟩, ?_⟩
    intro call' hcall'
    obtain rfl := Option.some.inj hcall'
    exact h.entry hlist

/-- The messages of a block join the queue, which was empty. -/
theorem atTop_parsed {w : SyncWorld σ M} (h : w.Known) {call : OpenCall M}
    (hcall : w.reading = some call) (parser : σ) (msgs : List M) (reads : List ReadRecord) :
    { w with
      clientRef := ⟨parser, w.clientRef.inputMessageList ++ msgs⟩
      completed := w.completed ++ msgs }.AtTop { call with reads := reads } where
  messages := by
    rw [← List.append_assoc]
    exact congrArg (· ++ msgs) h.messages
  calls := h.calls
  entry := fun _ => h.entry call hcall

theorem exec_known {w : SyncWorld σ M} (h : w.Known) (e : SyncEvent) (he : w.Enabled e) :
    ∃ w', w.exec execute e = .ok w' ∧ w'.Known := by
  cases e with
  | call => exact ⟨_, rfl, loop_known ⟨h.messages, h.calls, id⟩⟩
  | read result =>
    have hsome : w.reading.isSome := by
      cases result with
      | data block => exact he.1
      | nothing bytesRead => exact he.1
    obtain ⟨call, hcall⟩ := Option.isSome_iff_exists.mp hsome
    simp only [exec, hcall]
    cases result with
    | nothing bytesRead =>
      have htop : w.AtTop { call with reads := call.reads ++ [⟨bytesRead, none⟩] } :=
        ⟨h.messages, h.calls, fun _ => h.entry call hcall⟩
      refine ⟨_, rfl, leave_failed htop (h.entry call hcall) ⟨⟨bytesRead, none⟩, by simp, ?_⟩⟩
      exact Or.inl he.2
    | data block =>
      rw [gotRead, syncReadBlock_eq w.clientRef he.2.1 he.2.2, ok_bind]
      generalize execute w.clientRef.parserRef (block.map some) = run
      have htop := atTop_parsed h hcall run.parser run.messages
        (call.reads ++ [⟨block.length, some run.status⟩])
      dsimp only
      split_ifs with hrc
      · refine ⟨_, rfl, leave_failed htop (h.entry call hcall)
          ⟨⟨block.length, some run.status⟩, by simp, ?_⟩⟩
        exact Or.inr ⟨_, rfl, hrc⟩
      · exact ⟨_, rfl, loop_known htop⟩

theorem init_known (parser : σ) : (init parser : SyncWorld σ M).Known where
  messages := rfl
  calls := fun c hc => by cases hc
  reading := fun call hcall => by cases hcall
  entry := fun call hcall => by cases hcall

end SyncWorld

end steps

/-- However the reads end and however often `http_syncsocket_read_message` is called, the calls
return the messages of the parser in order, and every event goes through. -/
theorem sync_reads_in_order {σ M : Type} (execute : σ → List Cell → Execution σ M) (parser : σ)
    (es : List SyncEvent) (w : SyncWorld σ M)
    (h : (syncMachine execute).Run (.init parser) es w) :
    w.InOrder ∧
      ∀ e, (syncMachine execute).enabled w e → ∃ w', (syncMachine execute).exec w e = .ok w' := by
  have hknown : w.Known := h.keeps_of_total (fun w e hw he => SyncWorld.exec_known hw e he)
    (SyncWorld.init_known parser)
  refine ⟨hknown.toInOrder, fun e he => ?_⟩
  have hexec : ∃ w', w.exec execute e = .ok w' ∧ w'.Known := SyncWorld.exec_known hknown e he
  obtain ⟨w', hw', -⟩ := hexec
  exact ⟨w', hw'⟩

/-- Two messages in one block are returned by two calls; a third call meets the end of the
stream. -/
theorem sync_reads_two :
    let execute : ℕ → List Cell → Execution ℕ ℕ := fun n d => ⟨n+d.length, [n, n+1], 0⟩
    ∃ w : SyncWorld ℕ ℕ, (syncMachine execute).Run (.init 7)
        [.call, .read (.data [65, 66]), .call, .call, .read (.nothing 0)] w ∧
      w.InOrder ∧ w.returned = [7, 8] ∧ w.calls.map CallRecord.rc = [0, 0, -1] := by
  intro execute
  have hread : (syncMachine execute).exec ⟨⟨7, []⟩, some ⟨[], []⟩, [], []⟩
      (.read (.data [65, 66])) = .ok ⟨⟨9, [8]⟩, none, [7, 8], [⟨[], [⟨2, some 0⟩], 0, some 7⟩]⟩ := by
    simp only [syncMachine, SyncWorld.exec, SyncWorld.gotRead]
    rw [syncReadBlock_eq _ (by decide) (by decide)]
    rfl
  have hrun : (syncMachine execute).Run (.init 7)
      [.call, .read (.data [65, 66]), .call, .call, .read (.nothing 0)] _ :=
    .cons rfl rfl (.cons ⟨rfl, by decide, by decide⟩ hread
      (.cons rfl rfl (.cons rfl rfl (.cons ⟨rfl, by decide⟩ rfl (.nil _)))))
  exact ⟨_, hrun, (sync_reads_in_order execute 7 _ _ hrun).1, rfl, rfl⟩

end CHttp
