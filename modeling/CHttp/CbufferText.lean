import CHttp.CbufferSlab

/-! Reading `Cbuffer`s as C strings, over blocks that malloc returns with some bytes in
them. The state is a family of buffers, so that one can be moved into another. -/
namespace CHttp

/-- What a block for a new `Cbuffer` holds when malloc returns it. -/
abbrev MallocBlock := {b : Bytes // b.length = strategyMinSize}

/-- `Cbuffer_new`, which writes nothing to its block. -/
def cbufferSlabNewIn (block : MallocBlock) : CbufferSlab :=
  { cbufferSlabNew with mem := block.1.map some }

/-- `Cbuffer_move`: `dest` and `src` after the swap of the structs. The one that ends up
in `src` is cleared on both sides of it. -/
def cbufferSlabMove (dest src : CbufferSlab) : Res (CbufferSlab × CbufferSlab) := do
  let cleared ← cbufferSlabClear dest
  let left ← cbufferSlabClear cleared
  .ok (src, left)

/-- `Cbuffer_data` behind a `%s`. -/
def cbufferSlabDataString (cbuf : CbufferSlab) : Res Bytes := readCstr cbuf.mem

/-- The two fields of an `HttpMessage` that hold text. -/
structure HttpMessageTexts where
  target : CbufferSlab
  reason : CbufferSlab

def httpMessageGetTarget (this : HttpMessageTexts) : Res Bytes := cbufferSlabCstr this.target

def httpMessageGetReason (this : HttpMessageTexts) : Res Bytes := cbufferSlabCstr this.reason

/-- The text that `http_message_serialize` prints into the first line. -/
def httpMessageFirstLineText (this : HttpMessageTexts) (isRequest : Bool) : Res Bytes :=
  if isRequest then cbufferSlabDataString this.target else cbufferSlabDataString this.reason

/-- A buffer with what was appended since the last clear, what malloc returned for the
block it has now, and whether that block has been written to. -/
structure CbufferText where
  cbuf : CbufferSlab
  content : Bytes
  block : MallocBlock
  written : Bool

def CbufferText.new (block : MallocBlock) : CbufferText := ⟨cbufferSlabNewIn block, [], block, false⟩

/-- An append of nothing returns before it writes a terminator. -/
def CbufferOp.writes : CbufferOp → Bool
  | .append d => d ≠ []
  | .appendCstr s => cstr s ≠ []
  | .clear => true

inductive CbufferTextEvent where
  | call (i : ℕ) (op : CbufferOp)
  | move (dest src : ℕ)
  deriving DecidableEq

def cbufferTextMachine : Machine (ℕ → CbufferText) CbufferTextEvent Fault where
  enabled w
    | .call i op => 0 ∉ op.appended ∧ (op.content (w i).content).length < 200
    | .move _ _ => True
  exec w
    | .call i op => do
      let cbuf ← cbufferSlabExec (w i).cbuf op
      .ok (Function.update w i
        ⟨cbuf, op.content (w i).content, (w i).block, (w i).written || op.writes⟩)
    | .move dest src => do
      let (into, left) ← cbufferSlabMove (w dest).cbuf (w src).cbuf
      .ok (Function.update (Function.update w dest { w src with cbuf := into }) src
        ⟨left, [], (w dest).block, true⟩)

/-- `Cbuffer_cstr` returns the content. -/
def CbufferText.Readable (t : CbufferText) : Prop := cbufferSlabCstr t.cbuf = .ok t.content

/-- The texts of a message are read as they were stored. -/
structure HttpMessageTexts.Reads (this : HttpMessageTexts) (target reason : Bytes) : Prop where
  getTarget : httpMessageGetTarget this = .ok target
  getReason : httpMessageGetReason this = .ok reason
  firstLine (isRequest : Bool) :
    httpMessageFirstLineText this isRequest = .ok (if isRequest then target else reason)

/-- The block has been written to, or malloc returned it with a NUL at its start. -/
def CbufferText.Started (t : CbufferText) : Prop := t.written = true ∨ t.block.1.head? = some 0

instance CbufferText.decidableStarted (t : CbufferText) : Decidable t.Started :=
  inferInstanceAs (Decidable (_ ∨ _))

/-- What is known of a buffer in every run. -/
structure CbufferText.Known (t : CbufferText) : Prop where
  holds : t.cbuf.Holds t.content
  text : 0 ∉ t.content
  short : t.content.length < 200
  terminated : t.written = true → t.cbuf.Terminated ∧ t.cbuf.mem[t.cbuf.mSize]? = some (some 0)
  untouched : t.written = false → t.cbuf = cbufferSlabNewIn t.block ∧ t.content = []

theorem CbufferText.new_known (block : MallocBlock) : (CbufferText.new block).Known where
  holds :=
    { allocated := List.length_map _ |>.trans block.2
      min_le := le_rfl
      le_max := show strategyMinSize ≤ strategyMaxSize by decide
      length := rfl
      room := show 0 < strategyMinSize by decide
      data := rfl }
  text := List.not_mem_nil
  short := Nat.zero_lt_succ 199
  terminated := nofun
  untouched _ := ⟨rfl, rfl⟩

section steps

variable {t : CbufferText}

/-- Clearing writes a NUL to the start of the block. A stale `m_size` still points at the
terminator of an earlier append. -/
theorem CbufferText.Known.clear (h : t.Known) : ∃ cbuf, cbufferSlabClear t.cbuf = .ok cbuf ∧
    ∀ block, (CbufferText.mk cbuf [] block true).Known := by
  obtain ⟨cbuf, hx, hh, hterm, hsize, -, hcells⟩ := cbufferSlabClear_spec h.holds
  refine ⟨cbuf, hx, fun block => ⟨hh, List.not_mem_nil, Nat.zero_lt_succ 199,
    fun _ => ⟨hterm, ?_⟩, nofun⟩⟩
  have hzero : cbuf.mem[0]? = some (some 0) := by
    rw [CbufferSlab.Terminated, hh.length] at hterm
    exact hterm
  simp only [hsize]
  by_cases hs : t.cbuf.mSize = 0
  · rw [hs, hzero]
  · rw [hcells _ hs]
    cases hw : t.written with
    | false =>
      rw [(h.untouched hw).1] at hs
      exact absurd rfl hs
    | true => exact (h.terminated hw).2

/-- An append of less than 200 bytes in all leaves the block as large as it was. -/
theorem CbufferText.Known.append (h : t.Known) (d : Bytes) (hd : 0 ∉ d)
    (hshort : (t.content ++ d).length < 200) :
    ∃ cbuf, cbufferSlabAppend t.cbuf d = .ok cbuf ∧
      (CbufferText.mk cbuf (t.content ++ d) t.block (t.written || decide (d ≠ []))).Known := by
  by_cases he : d = []
  · subst he
    refine ⟨t.cbuf, if_pos rfl, ?_⟩
    simpa using h
  · have hsmall : strategyMinSize = 256 := rfl
    rw [List.length_append] at hshort
    have hroom : blockRoom t.cbuf.mCapacity (t.content.length+d.length) :=
      blockRoom_always (by omega) _ _ h.holds.min_le le_rfl
    obtain ⟨cbuf, hx, hh, hterm, hsize, -⟩ := cbufferSlabAppend_fits h.holds he hroom
    refine ⟨cbuf, hx, hh, ?_, by simpa using hshort, fun _ => ⟨hterm, hsize ▸ hterm⟩, ?_⟩
    · simpa using ⟨h.text, hd⟩
    · intro hw
      simp [he] at hw

theorem CbufferText.Known.call (h : t.Known) (op : CbufferOp) (hop : 0 ∉ op.appended)
    (hshort : (op.content t.content).length < 200) :
    ∃ cbuf, cbufferSlabExec t.cbuf op = .ok cbuf ∧
      (CbufferText.mk cbuf (op.content t.content) t.block (t.written || op.writes)).Known := by
  cases op with
  | append d => exact h.append d hop hshort
  | appendCstr s => exact h.append (cstr s) hop hshort
  | clear =>
    obtain ⟨cbuf, hx, hknown⟩ := h.clear
    refine ⟨cbuf, hx, ?_⟩
    rw [CbufferOp.writes, Bool.or_true]
    exact hknown t.block

theorem CbufferText.Known.move {s : CbufferText} (h : t.Known) :
    ∃ left, cbufferSlabMove t.cbuf s.cbuf = .ok (s.cbuf, left) ∧
      (CbufferText.mk left [] t.block true).Known := by
  obtain ⟨cleared, hx, hknown⟩ := h.clear
  obtain ⟨left, hx', hknown'⟩ := (hknown t.block).clear
  exact ⟨left, by simp only [cbufferSlabMove, hx, hx', ok_bind], hknown' t.block⟩

/-- Buffers of a run can be appended to, cleared and moved, and remain buffers of a run. -/
theorem cbufferText_step {w : ℕ → CbufferText} (e : CbufferTextEvent) (h : ∀ i, (w i).Known)
    (he : cbufferTextMachine.enabled w e) :
    ∃ w', cbufferTextMachine.exec w e = .ok w' ∧ ∀ i, (w' i).Known := by
  cases e with
  | call i op =>
    obtain ⟨cbuf, hx, hknown⟩ := (h i).call op he.1 he.2
    refine ⟨_, congrArg (· >>= _) hx, ?_⟩
    exact (Function.forall_update_iff w fun _ t => t.Known).mpr ⟨hknown, fun j _ => h j⟩
  | move dest src =>
    obtain ⟨left, hx, hknown⟩ := (h dest).move (s := w src)
    have hinto : ∀ j, (Function.update w dest { w src with cbuf := (w src).cbuf } j).Known :=
      (Function.forall_update_iff w fun _ t => t.Known).mpr ⟨h src, fun j _ => h j⟩
    refine ⟨_, congrArg (· >>= _) hx, ?_⟩
    exact (Function.forall_update_iff _ fun _ t => CbufferText.Known t).mpr
      ⟨hknown, fun j _ => hinto j⟩

end steps

/-- A `%s` finds what `Cbuffer_cstr` returns, if that returns. -/
theorem cbufferSlabDataString_of_cstr {cbuf : CbufferSlab} {d : Bytes}
    (h : cbufferSlabCstr cbuf = .ok d) : cbufferSlabDataString cbuf = .ok d := by
  unfold cbufferSlabCstr at h
  split at h
  · cases h
  · cases h
  · exact ((cAssert_bind_eq_ok _ _ _ _).mp h).2

/-- A buffer is readable as soon as its block starts with what was written there. -/
theorem CbufferText.Known.readable_iff {t : CbufferText} (h : t.Known) : t.Readable ↔ t.Started := by
  cases hw : t.written with
  | true =>
    obtain ⟨hterm, hsize⟩ := h.terminated hw
    refine iff_of_true ?_ (.inl hw)
    simp only [CbufferText.Readable, cbufferSlabCstr, hsize, decide_true, cAssert_true, ok_bind]
    rw [h.holds.readCstr_eq hterm, (cstr_eq_self_iff _).mpr h.text]
  | false =>
    obtain ⟨hcbuf, hcontent⟩ := h.untouched hw
    rcases hb : t.block.1 with _ | ⟨b, rest⟩
    · have hlen := t.block.2
      rw [hb] at hlen
      cases hlen
    · have hstart : t.Started ↔ b = 0 := by simp [CbufferText.Started, hw, hb]
      rw [hstart, CbufferText.Readable, hcbuf, hcontent]
      by_cases hz : b = 0
      · refine iff_of_true ?_ hz
        simp [cbufferSlabCstr, cbufferSlabNewIn, cbufferSlabNew, hb, hz, readCstr]
      · refine iff_of_false ?_ hz
        simp [cbufferSlabCstr, cbufferSlabNewIn, cbufferSlabNew, hb, hz]

theorem CbufferText.reads_iff {t s : CbufferText} :
    (HttpMessageTexts.mk t.cbuf s.cbuf).Reads t.content s.content ↔ t.Readable ∧ s.Readable := by
  constructor
  · rintro ⟨htarget, hreason, -⟩
    exact ⟨htarget, hreason⟩
  · rintro ⟨htarget, hreason⟩
    refine ⟨htarget, hreason, fun isRequest => ?_⟩
    cases isRequest with
    | true => exact cbufferSlabDataString_of_cstr htarget
    | false => exact cbufferSlabDataString_of_cstr hreason

/-- In every run over new buffers each call returns, and a buffer can be read as a C
string exactly if its block was written to or malloc returned it with a NUL at its
start. The same decides whether the texts of a message can be read. -/
theorem cbuffer_readable_iff (blocks : ℕ → MallocBlock) (es : List CbufferTextEvent)
    (w : ℕ → CbufferText) (hrun : cbufferTextMachine.Run (fun i => .new (blocks i)) es w) :
    (∀ e, cbufferTextMachine.enabled w e → ∃ w', cbufferTextMachine.exec w e = .ok w') ∧
      (∀ i, (w i).Readable ↔ (w i).Started) ∧
      ∀ i j, (HttpMessageTexts.mk (w i).cbuf (w j).cbuf).Reads (w i).content (w j).content ↔
        (w i).Started ∧ (w j).Started := by
  have hknown : ∀ i, (w i).Known :=
    hrun.keeps_of_total (fun w e h he => cbufferText_step e h he)
      (fun i => CbufferText.new_known (blocks i))
  refine ⟨fun e he => ?_, fun i => (hknown i).readable_iff, fun i j => ?_⟩
  · obtain ⟨w', hx, -⟩ := cbufferText_step e hknown he
    exact ⟨w', hx⟩
  · rw [CbufferText.reads_iff, (hknown i).readable_iff, (hknown j).readable_iff]

theorem length_usedBlock : (65 :: List.replicate 255 (0 : UInt8)).length = strategyMinSize := by
  rw [List.length_cons, List.length_replicate]
  rfl

/-- A block that was used before, for the text `A`. -/
def usedBlock : MallocBlock := ⟨65 :: List.replicate 255 0, length_usedBlock⟩

/-- A buffer that gets a byte appended and is then moved: both can be read. -/
theorem cbuffer_readable_moved :
    ∃ w, cbufferTextMachine.Run (fun _ => .new usedBlock) [.call 0 (.append [47]), .move 1 0] w ∧
      (w 1).content = [47] ∧ (w 0).Readable ∧ (w 1).Readable := by
  obtain ⟨cbuf, hx, -⟩ := (CbufferText.new_known usedBlock).call (.append [47]) (by decide)
    (show List.length [47] < 200 by decide)
  obtain ⟨left, hmove, -⟩ := (CbufferText.new_known usedBlock).move (s := ⟨cbuf, [47], usedBlock, true⟩)
  have hrun : cbufferTextMachine.Run (fun _ => .new usedBlock) [.call 0 (.append [47]), .move 1 0]
      (Function.update (Function.update (Function.update (fun _ => .new usedBlock) 0
        ⟨cbuf, [47], usedBlock, true⟩) 1 ⟨cbuf, [47], usedBlock, true⟩) 0
        ⟨left, [], usedBlock, true⟩) :=
    .cons ⟨by decide, show List.length [47] < 200 by decide⟩ (congrArg (· >>= _) hx) (.cons trivial (congrArg (· >>= _) hmove) (.nil _))
  obtain ⟨-, hread, -⟩ := cbuffer_readable_iff (fun _ => usedBlock) _ _ hrun
  exact ⟨_, hrun, rfl, (hread 0).mpr (.inl rfl), (hread 1).mpr (.inl rfl)⟩

/-- A new buffer over it fails the assertion, and a message none of whose texts was ever
set puts what malloc left there on its first line. -/
theorem cbuffer_new_unreadable :
    cbufferSlabCstr (CbufferText.new usedBlock).cbuf =
        .error (.assertion "this->m_cPtr[this->m_size] == '\\0'") ∧
      (CbufferText.new usedBlock).content = [] ∧
      ∀ reason, httpMessageFirstLineText ⟨(CbufferText.new usedBlock).cbuf, reason⟩ true =
        .ok [65] :=
  ⟨rfl, rfl, fun _ => readCstr_append_nul [65] _⟩

end CHttp
