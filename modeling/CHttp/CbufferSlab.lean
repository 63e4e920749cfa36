import CHttp.Cbuffer

/-! `Cbuffer` down to its memory slab: where the data and the terminator are
written, and how much room the growth strategy leaves for them. -/
namespace CHttp

/-- `Cbuffer`. `mem` is the block that `m_memPtr` and `m_cPtr` point to. -/
structure CbufferSlab where
  mem : List Cell
  mLength : ℕ
  mCapacity : ℕ
  mSize : ℕ
  deriving DecidableEq, Repr

def cbufferSlabNew : CbufferSlab := ⟨List.replicate strategyMinSize none, 0, strategyMinSize, 0⟩

/-- `m_size` keeps its old value. -/
def cbufferSlabClear (cbuf : CbufferSlab) : Res CbufferSlab := do
  let mem ← memWrite cbuf.mem 0 [some 0]
  .ok { cbuf with mem := mem, mLength := 0 }

/-- The reallocation inside `Cbuffer_append`, with the assertions of
`BufferStrategy_reallocate_size` and `BufferStrategy_reallocate`. -/
def cbufferSlabReallocate (cbuf : CbufferSlab) (len : ℕ) : Res CbufferSlab :=
  if cbuf.mLength+len ≥ cbuf.mCapacity then do
    cAssert (cbuf.mLength+len ≤ strategyMaxSize) "requested_new_size > bsref->m_max_size"
    let newCapacity := strategyReallocateSize cbuf.mCapacity (cbuf.mLength+len)
    cAssert (newCapacity ≤ strategyMaxSize) "new_size > bsref->m_max_size"
    .ok { cbuf with mem := realloc cbuf.mem newCapacity, mCapacity := newCapacity }
  else .ok cbuf

def cbufferSlabAppend (cbuf : CbufferSlab) (d : Bytes) : Res CbufferSlab :=
  if d = [] then .ok cbuf
  else do
    let cbuf ← cbufferSlabReallocate cbuf d.length
    let mem ← memWrite cbuf.mem cbuf.mLength (d.map some)
    let length := cbuf.mLength+d.length
    let mem ← memWrite mem length [some 0]
    .ok { cbuf with mem := mem, mLength := length, mSize := length }

def cbufferSlabAppendCstr (cbuf : CbufferSlab) (s : Bytes) : Res CbufferSlab :=
  cbufferSlabAppend cbuf (cstr s)

def cbufferSlabCstr (cbuf : CbufferSlab) : Res Bytes :=
  match cbuf.mem[cbuf.mSize]? with
  | none => .error .outOfBounds
  | some none => .error .indeterminate
  | some (some b) => do
    cAssert (b = 0) "this->m_cPtr[this->m_size] == '\\0'"
    readCstr cbuf.mem

/-- The slab holds `d`, and there is a byte left behind it. -/
structure CbufferSlab.Holds (cbuf : CbufferSlab) (d : Bytes) : Prop where
  allocated : cbuf.mem.length = cbuf.mCapacity
  min_le : strategyMinSize ≤ cbuf.mCapacity
  le_max : cbuf.mCapacity ≤ strategyMaxSize
  length : cbuf.mLength = d.length
  room : cbuf.mLength < cbuf.mCapacity
  data : cbuf.mem.take cbuf.mLength = d.map some

def CbufferSlab.Terminated (cbuf : CbufferSlab) : Prop := cbuf.mem[cbuf.mLength]? = some (some 0)

theorem cbufferSlabNew_holds : cbufferSlabNew.Holds [] where
  allocated := List.length_replicate
  min_le := le_rfl
  le_max := by decide
  length := rfl
  room := by decide
  data := rfl

section append

variable {cbuf : CbufferSlab} {d e : Bytes}

/-- The block has room for the data after the reallocation, but for the terminator
only if the request was below twice the old capacity. -/
theorem cbufferSlabReallocate_spec (h : cbuf.Holds d) (hmax : d.length+e.length ≤ strategyMaxSize) :
    ∃ big, cbufferSlabReallocate cbuf e.length = .ok big ∧ big.mem.length = big.mCapacity ∧
      big.mCapacity = strategyCapacity cbuf.mCapacity (d.length+e.length) ∧
      cbuf.mCapacity ≤ big.mCapacity ∧ big.mCapacity ≤ strategyMaxSize ∧
      big.mLength = cbuf.mLength ∧ big.mem.take cbuf.mLength = d.map some ∧
      d.length+e.length ≤ big.mCapacity := by
  have hl := h.length
  have ha := h.allocated
  have hm := h.le_max
  have hmin := h.min_le
  by_cases hge : cbuf.mLength+e.length ≥ cbuf.mCapacity
  · have hcap : strategyReallocateSize cbuf.mCapacity (cbuf.mLength+e.length) ≤ strategyMaxSize :=
      max_le (by omega) (min_le_left _ _)
    have hgrow : cbuf.mCapacity ≤
        strategyReallocateSize cbuf.mCapacity (cbuf.mLength+e.length) :=
      le_max_of_le_right (le_min hm (by omega))
    refine ⟨{ cbuf with
        mem := realloc cbuf.mem (strategyReallocateSize cbuf.mCapacity (cbuf.mLength+e.length))
        mCapacity := strategyReallocateSize cbuf.mCapacity (cbuf.mLength+e.length) },
      ?_, length_realloc _ _, ?_, hgrow, hcap, rfl, ?_, ?_⟩
    · have hreq : cbuf.mLength+e.length ≤ strategyMaxSize := by omega
      simp only [cbufferSlabReallocate, hge, hreq, hcap, if_true, decide_true, cAssert_true, ok_bind]
    · rw [strategyCapacity, if_neg (by omega), ← hl]
    · rw [take_realloc _ _ _ (by have := h.room; omega) (by have := h.room; omega), h.data]
    · rw [← hl]
      exact le_max_left _ _
  · exact ⟨cbuf, if_neg hge, ha, by rw [strategyCapacity, if_pos (by omega)], le_rfl, hm, rfl,
      h.data, by omega⟩

/-- An append that leaves a byte of the block behind its data terminates them. -/
theorem cbufferSlabAppend_fits (h : cbuf.Holds d) (he : e ≠ [])
    (hroom : blockRoom cbuf.mCapacity (d.length+e.length)) :
    ∃ cbuf', cbufferSlabAppend cbuf e = .ok cbuf' ∧ cbuf'.Holds (d ++ e) ∧ cbuf'.Terminated ∧
      cbuf'.mSize = cbuf'.mLength ∧
      cbuf'.mCapacity = strategyCapacity cbuf.mCapacity (d.length+e.length) := by
  obtain ⟨big, hbig, halloc, hnew, hle, hcap, hlen, htake, -⟩ :=
    cbufferSlabReallocate_spec h (hroom.le.trans (min_le_left _ _))
  have hplace : d.length+e.length < big.mCapacity := by
    rw [hnew]
    exact (lt_strategyCapacity_iff h.le_max).mpr hroom
  have hl := h.length
  have hmin := h.min_le
  obtain ⟨mem, hw, hml, hcells⟩ := memWrite_spec big.mem big.mLength (e.map some)
    (by rw [List.length_map]; omega)
  obtain ⟨mem', hw', hml', hcells'⟩ := memWrite_spec mem (big.mLength+e.length) [some 0]
    (by rw [List.length_singleton]; omega)
  simp only [List.length_map, List.length_singleton] at hcells hcells'
  refine ⟨{ big with mem := mem', mLength := big.mLength+e.length, mSize := big.mLength+e.length },
    ?_, ⟨(hml'.trans hml).trans halloc, hmin.trans hle, hcap, ?_, ?_, ?_⟩, ?_, rfl, hnew⟩
  · simp only [cbufferSlabAppend, if_neg he, hbig, ok_bind, hw, hw']
  · simp only [hlen, hl, List.length_append]
  · simp only
    omega
  · apply List.ext_getElem?
    intro j
    simp only [List.getElem?_take, hcells', hcells]
    by_cases hj : j < big.mLength+e.length
    · rw [if_pos hj, if_neg (by omega), List.map_append]
      by_cases hd : j < d.length
      · have hold := congrArg (·[j]?) htake
        rw [List.getElem?_take_of_lt (by omega)] at hold
        rw [if_neg (by omega), hold, List.getElem?_append_left (by rwa [List.length_map])]
      · rw [if_pos (by omega), List.getElem?_append_right (by rw [List.length_map]; omega),
          List.length_map, hlen, hl]
    · rw [if_neg hj, List.getElem?_eq_none (by simp only [List.length_map, List.length_append]; omega)]
  · simp only [CbufferSlab.Terminated, hcells', Nat.sub_self]
    rw [if_pos (by omega)]
    rfl

/-- One that asks for more gets exactly the room its data needs, and writes the
terminator behind the block. -/
theorem cbufferSlabAppend_overflows (h : cbuf.Holds d) (he : e ≠ [])
    (hmax : d.length+e.length ≤ strategyMaxSize)
    (hroom : ¬blockRoom cbuf.mCapacity (d.length+e.length)) :
    cbufferSlabAppend cbuf e = .error .outOfBounds := by
  obtain ⟨big, hbig, halloc, hnew, -, -, hlen, -, hdata⟩ := cbufferSlabReallocate_spec h hmax
  have hfull : big.mCapacity ≤ d.length+e.length := by
    rw [hnew]
    exact not_lt.mp ((lt_strategyCapacity_iff h.le_max).not.mpr hroom)
  have hl := h.length
  obtain ⟨mem, hw, hml, -⟩ := memWrite_spec big.mem big.mLength (e.map some)
    (by rw [List.length_map]; omega)
  have hout : memWrite mem (big.mLength+e.length) [some 0] = .error .outOfBounds :=
    if_neg (by rw [List.length_singleton]; omega)
  simp only [cbufferSlabAppend, if_neg he, hbig, ok_bind, hw, hout, error_bind]

theorem cbufferSlabAppend_refused (h : cbuf.Holds d) (he : e ≠ [])
    (hmax : strategyMaxSize < d.length+e.length) :
    cbufferSlabAppend cbuf e =
      .error (.assertion "requested_new_size > bsref->m_max_size") := by
  have hl := h.length
  have hm := h.le_max
  have hreq : ¬(cbuf.mLength+e.length ≤ strategyMaxSize) := by omega
  have hge : cbuf.mLength+e.length ≥ cbuf.mCapacity := by omega
  simp only [cbufferSlabAppend, if_neg he, cbufferSlabReallocate, if_pos hge, hreq, decide_false,
    cAssert_false, error_bind]

theorem cbufferSlabClear_spec (h : cbuf.Holds d) :
    ∃ cbuf', cbufferSlabClear cbuf = .ok cbuf' ∧ cbuf'.Holds [] ∧ cbuf'.Terminated ∧
      cbuf'.mSize = cbuf.mSize ∧ cbuf'.mCapacity = cbuf.mCapacity ∧
      ∀ j, j ≠ 0 → cbuf'.mem[j]? = cbuf.mem[j]? := by
  have hmin := h.min_le
  have hr := h.room
  obtain ⟨mem, hw, hml, hcells⟩ := memWrite_spec cbuf.mem 0 [some 0]
    (by rw [List.length_singleton, h.allocated]; omega)
  simp only [List.length_singleton] at hcells
  refine ⟨{ cbuf with mem := mem, mLength := 0 }, by simp only [cbufferSlabClear, hw, ok_bind],
    ⟨hml.trans h.allocated, hmin, h.le_max, rfl, by simp only; omega, rfl⟩, ?_, rfl, rfl, ?_⟩
  · simp only [CbufferSlab.Terminated, hcells]
    rfl
  · intro j hj
    rw [hcells, if_neg (by omega)]

/-- With the terminator in place a C reader finds the data, up to the first NUL. -/
theorem CbufferSlab.Holds.readCstr_eq (h : cbuf.Holds d) (hterm : cbuf.Terminated) :
    readCstr cbuf.mem = .ok (cstr d) := by
  obtain ⟨hlt, hget⟩ := List.getElem?_eq_some_iff.mp hterm
  have hsplit : cbuf.mem = d.map some ++ some 0 :: cbuf.mem.drop (cbuf.mLength+1) := by
    rw [← h.data, ← hget, ← List.drop_eq_getElem_cons hlt, List.take_append_drop]
  rw [hsplit, readCstr_append_nul]

end append

inductive CbufferOp where
  | append (d : Bytes)
  | appendCstr (s : Bytes)
  | clear
  deriving DecidableEq

/-- The bytes an operation hands to `Cbuffer_append`. -/
def CbufferOp.appended : CbufferOp → Bytes
  | .append d => d
  | .appendCstr s => cstr s
  | .clear => []

/-- What has been appended since the last clear, after an operation. -/
def CbufferOp.content (d : Bytes) : CbufferOp → Bytes
  | .append e => d ++ e
  | .appendCstr s => d ++ cstr s
  | .clear => []

def cbufferSlabExec (cbuf : CbufferSlab) : CbufferOp → Res CbufferSlab
  | .append d => cbufferSlabAppend cbuf d
  | .appendCstr s => cbufferSlabAppendCstr cbuf s
  | .clear => cbufferSlabClear cbuf

/-- A buffer, its content, and whether the last operation appended something. -/
structure CbufferTrace where
  cbuf : CbufferSlab
  content : Bytes
  appended : Bool
  deriving DecidableEq

def CbufferTrace.new : CbufferTrace := ⟨cbufferSlabNew, [], false⟩

def cbufferMachine : Machine CbufferTrace CbufferOp Fault where
  enabled _ _ := True
  exec s op := do
    let cbuf ← cbufferSlabExec s.cbuf op
    .ok ⟨cbuf, op.content s.content, op.appended ≠ []⟩

/-- After an append the slab holds the content and a NUL behind it, inside the block. -/
def CbufferTrace.Sound (s : CbufferTrace) : Prop :=
  s.appended = true → s.cbuf.Holds s.content ∧ s.cbuf.Terminated

def CbufferSlab.sizes (cbuf : CbufferSlab) : CbufferSizes := ⟨cbuf.mCapacity, cbuf.mLength⟩

/-- The sizes of a buffer after an operation. -/
def CbufferOp.resize (z : CbufferSizes) : CbufferOp → CbufferSizes
  | .append d => z.append d
  | .appendCstr s => z.append (cstr s)
  | .clear => .empty z.capacity

/-- An append asks for less than twice the capacity. -/
def CbufferOp.Fits (z : CbufferSizes) (op : CbufferOp) : Prop :=
  op.appended = [] ∨ z.length+op.appended.length < 2*z.capacity

instance CbufferOp.decidableFits (z : CbufferSizes) (op : CbufferOp) : Decidable (op.Fits z) :=
  inferInstanceAs (Decidable (_ ∨ _))

/-- The content stays below the strategy's maximum. -/
def StaysBelow (d : Bytes) (ops : List CbufferOp) : Prop :=
  ∀ pre post, ops = pre ++ post → (pre.foldl CbufferOp.content d).length < strategyMaxSize

theorem CbufferOp.content_length_le (op : CbufferOp) (d : Bytes) :
    (op.content d).length ≤ d.length+op.appended.length := by
  cases op with
  | append e => exact List.length_append.le
  | appendCstr s => exact List.length_append.le
  | clear => exact Nat.zero_le _

theorem length_contents_le (ops : List CbufferOp) (d : Bytes) :
    (ops.foldl CbufferOp.content d).length ≤
      d.length+(ops.map fun op => op.appended.length).sum := by
  induction ops generalizing d with
  | nil => exact le_rfl
  | cons op ops ih =>
    have hop := op.content_length_le d
    have hrest := ih (op.content d)
    rw [List.foldl_cons, List.map_cons, List.sum_cons]
    omega

/-- So it does if all the appends together do. -/
theorem staysBelow_of_total {ops : List CbufferOp}
    (h : (ops.map fun op => op.appended.length).sum < strategyMaxSize) : StaysBelow [] ops := by
  intro pre post hops
  have hle := length_contents_le pre []
  rw [hops, List.map_append, List.sum_append] at h
  rw [List.length_nil, Nat.zero_add] at hle
  omega

theorem StaysBelow.next {d : Bytes} {op : CbufferOp} {ops : List CbufferOp}
    (h : StaysBelow d (op :: ops)) : StaysBelow (op.content d) ops := by
  intro pre post hops
  exact h (op :: pre) post (by rw [hops, List.cons_append])

theorem StaysBelow.below {d : Bytes} {ops : List CbufferOp} (h : StaysBelow d ops) :
    d.length < strategyMaxSize :=
  h [] ops rfl

/-- An append to a slab that holds its content: it goes through exactly when it fits. -/
theorem cbufferSlabAppend_iff (cbuf : CbufferSlab) (d e : Bytes) (h : cbuf.Holds d)
    (hmax : (d ++ e).length < strategyMaxSize) :
    OkIff (cbufferSlabAppend cbuf e)
      (fun cbuf' => cbuf'.Holds (d ++ e) ∧ (e ≠ [] → cbuf'.Terminated) ∧
        cbuf'.sizes = cbuf.sizes.append e)
      (e = [] ∨ cbuf.mLength+e.length < 2*cbuf.mCapacity) := by
  rw [List.length_append] at hmax
  by_cases he : e = []
  · have hsame : cbufferSlabAppend cbuf e = .ok cbuf := if_pos he
    refine .of_ok hsame ⟨by rwa [he, List.append_nil], fun hne => absurd he hne, ?_⟩ (.inl he)
    rw [CbufferSizes.append, if_pos he]
  · by_cases hfit : d.length+e.length < 2*cbuf.mCapacity
    · obtain ⟨cbuf', hx, hh, ht, -, hcap⟩ := cbufferSlabAppend_fits h he (lt_min hmax hfit)
      refine .of_ok hx ⟨hh, fun _ => ht, ?_⟩ (.inr (by rwa [h.length]))
      rw [CbufferSizes.append, if_neg he, CbufferSlab.sizes, hcap, hh.length, List.length_append,
        CbufferSlab.sizes, h.length]
    · refine .of_error (cbufferSlabAppend_overflows h he hmax.le fun hroom => ?_) ?_
      · exact hfit (hroom.trans_le (min_le_right _ _))
      · rw [h.length]
        exact fun hor => hor.elim he hfit

/-- The same for all three operations. -/
theorem cbufferSlabExec_iff (cbuf : CbufferSlab) (d : Bytes) (op : CbufferOp) (h : cbuf.Holds d)
    (hmax : (op.content d).length < strategyMaxSize) :
    OkIff (cbufferSlabExec cbuf op)
      (fun cbuf' => cbuf'.Holds (op.content d) ∧ (op.appended ≠ [] → cbuf'.Terminated) ∧
        cbuf'.sizes = op.resize cbuf.sizes)
      (op.Fits cbuf.sizes) := by
  cases op with
  | append e => exact cbufferSlabAppend_iff cbuf d e h hmax
  | appendCstr b => exact cbufferSlabAppend_iff cbuf d (cstr b) h hmax
  | clear =>
    obtain ⟨cbuf', hx, hh, -, -, hcap, -⟩ := cbufferSlabClear_spec h
    refine .of_ok hx ⟨hh, fun hne => absurd rfl hne, ?_⟩ (.inl rfl)
    rw [CbufferSlab.sizes, hcap, hh.length]
    rfl

/-- Operations that keep the content below 1 MiB can be performed, each append leaving
its data terminated inside the block, exactly when no append asks for twice the
capacity or more, counting from a capacity of 256 bytes. -/
theorem cbuffer_terminated_iff (ops : List CbufferOp) (hmax : StaysBelow [] ops) :
    cbufferMachine.Performs CbufferTrace.Sound .new ops ↔
      Machine.Admits CbufferOp.resize (fun z op => op.Fits z) (.empty strategyMinSize) ops := by
  apply Machine.performs_iff_admits
    (J := fun (s : CbufferTrace) ops => (s.cbuf.Holds s.content ∧ s.Sound) ∧ StaysBelow s.content ops)
    (fun s => s.cbuf.sizes)
  · exact fun s _ hj => hj.1.2
  · exact fun s op _ _ _ => trivial
  · rintro s op rest ⟨⟨hholds, -⟩, hbelow⟩ -
    refine (cbufferSlabExec_iff s.cbuf s.content op hholds hbelow.next.below).bind _
      fun cbuf' hh => ?_
    exact ⟨⟨⟨hh.1, fun ha => ⟨hh.1, hh.2.1 (of_decide_eq_true ha)⟩⟩, hbelow.next⟩, hh.2.2⟩
  · exact ⟨⟨cbufferSlabNew_holds, nofun⟩, hmax⟩

/-- An append, one for which the block has to grow, and one after a clear. -/
theorem cbuffer_terminated_grown :
    StaysBelow [] [.append [97], .append (List.replicate 300 98), .clear, .appendCstr [99, 0, 100]] ∧
      cbufferMachine.Performs CbufferTrace.Sound .new
        [.append [97], .append (List.replicate 300 98), .clear, .appendCstr [99, 0, 100]] := by
  have hmax : StaysBelow []
      [.append [97], .append (List.replicate 300 98), .clear, .appendCstr [99, 0, 100]] := by
    apply staysBelow_of_total
    decide +kernel
  exact ⟨hmax, (cbuffer_terminated_iff _ hmax).mpr (by decide +kernel)⟩

/-- 512 bytes appended to a new buffer fill the block to its last byte. -/
theorem cbuffer_terminator_outside :
    StaysBelow [] [.append (List.replicate 512 97)] ∧
      cbufferMachine.exec .new (.append (List.replicate 512 97)) = .error .outOfBounds := by
  have hlen : (List.replicate 512 (97 : UInt8)).length = 512 := List.length_replicate
  generalize List.replicate 512 (97 : UInt8) = d at hlen
  have hne : d ≠ [] := List.length_pos_iff.mp (by omega)
  have hx := cbufferSlabAppend_overflows (e := d) cbufferSlabNew_holds hne
    (by rw [hlen]; decide) (by rw [hlen]; decide)
  refine ⟨staysBelow_of_total ?_, ?_⟩
  · simp only [List.map_singleton, CbufferOp.appended, List.sum_singleton, hlen]
    decide
  · simp only [cbufferMachine, cbufferSlabExec, CbufferTrace.new, hx, error_bind]

/-- The slab against the byte string that the rest of the library sees. Before anything
is written `m_size` is 0 and the first byte unknown. -/
structure CbufferSlab.Refines (slab : CbufferSlab) (cbuf : Cbuffer) : Prop where
  holds : slab.Holds cbuf.data
  capacity : slab.mCapacity = cbuf.mCapacity
  terminated : cbuf.terminated = true →
    slab.Terminated ∧ slab.mem[slab.mSize]? = some (some 0)
  untouched : cbuf.terminated = false → slab.mSize = 0 ∧ slab.mem[0]? = some none

theorem cbufferSlabNew_refines : cbufferSlabNew.Refines cbufferNew where
  holds := cbufferSlabNew_holds
  capacity := rfl
  terminated := nofun
  untouched _ := ⟨rfl, rfl⟩

theorem cbufferSlabClear_refines (slab : CbufferSlab) (cbuf : Cbuffer) (h : slab.Refines cbuf) :
    ∃ slab', cbufferSlabClear slab = .ok slab' ∧ slab'.Refines (cbufferClear cbuf) := by
  obtain ⟨slab', hx, hh, hterm, hsize, hcap, hcells⟩ := cbufferSlabClear_spec h.holds
  refine ⟨slab', hx, hh, hcap.trans h.capacity, fun _ => ⟨hterm, ?_⟩, nofun⟩
  have hzero : slab'.mem[0]? = some (some 0) := by
    rw [CbufferSlab.Terminated, hh.length] at hterm
    exact hterm
  rw [hsize]
  by_cases hs : slab.mSize = 0
  · rw [hs, hzero]
  · rw [hcells _ hs]
    cases ht : cbuf.terminated with
    | false => exact absurd (h.untouched ht).1 hs
    | true => exact (h.terminated ht).2

/-- The append of the slab and that of the byte string end together. -/
theorem cbufferSlabAppend_refines (slab : CbufferSlab) (cbuf : Cbuffer) (d : Bytes)
    (h : slab.Refines cbuf) :
    EndTogether CbufferSlab.Refines (cbufferSlabAppend slab d) (cbufferAppend cbuf d) := by
  by_cases hd : d = []
  · subst hd
    exact h
  · rcases Nat.lt_or_ge strategyMaxSize (cbuf.data.length+d.length) with hlt | hle
    · rw [cbufferSlabAppend_refused h.holds hd hlt, cbufferAppend_refused hd hlt]
      rfl
    · obtain ⟨cbuf', hext, happend⟩ := cbufferAppend_eq hd hle
      rw [happend, ← h.capacity]
      split_ifs with hroom
      · obtain ⟨slab', hx, hh, hterm, hsize, hcap⟩ := cbufferSlabAppend_fits h.holds hd hroom
        have hsizes := hext.sizes
        rw [CbufferSizes.append, if_neg hd] at hsizes
        rw [hx]
        refine ⟨hext.data ▸ hh, ?_, fun _ => ⟨hterm, hsize ▸ hterm⟩, fun hf => ?_⟩
        · rw [hcap, h.capacity]
          exact (congrArg CbufferSizes.capacity hsizes).symm
        · rw [hext.terminated (.inr hd)] at hf
          cases hf
      · rw [cbufferSlabAppend_overflows h.holds hd hle hroom]
        rfl

def cbufferExec (cbuf : Cbuffer) : CbufferOp → Res Cbuffer
  | .append d => cbufferAppend cbuf d
  | .appendCstr s => cbufferAppendCstr cbufferAppend cbuf s
  | .clear => .ok (cbufferClear cbuf)

/-- Any operations on a new buffer, on the slab and on the byte string: they end with the same
fault, or the slab holds the byte string. -/
theorem cbufferSlab_refines (ops : List CbufferOp) :
    EndTogether CbufferSlab.Refines (ops.foldlM cbufferSlabExec cbufferSlabNew)
      (ops.foldlM cbufferExec cbufferNew) := by
  refine EndTogether.foldlM ?_ cbufferSlabNew_refines ops
  intro slab cbuf op h
  cases op with
  | append d => exact cbufferSlabAppend_refines slab cbuf d h
  | appendCstr s => exact cbufferSlabAppend_refines slab cbuf (cstr s) h
  | clear =>
    obtain ⟨slab', hx, hslab'⟩ := cbufferSlabClear_refines slab cbuf h
    show EndTogether CbufferSlab.Refines (cbufferSlabClear slab) (.ok (cbufferClear cbuf))
    rw [hx]
    exact hslab'

theorem cbufferSlabCstr_refines (slab : CbufferSlab) (cbuf : Cbuffer) (h : slab.Refines cbuf) :
    cbufferSlabCstr slab = cbufferCstr cbuf := by
  cases ht : cbuf.terminated with
  | false =>
    obtain ⟨hs, hz⟩ := h.untouched ht
    simp only [cbufferSlabCstr, cbufferCstr, hs, hz, ht, Bool.false_eq_true, if_false]
  | true =>
    obtain ⟨hterm, hsize⟩ := h.terminated ht
    simp only [cbufferSlabCstr, cbufferCstr, hsize, ht, if_true, decide_true, cAssert_true, ok_bind]
    exact h.holds.readCstr_eq hterm

end CHttp
