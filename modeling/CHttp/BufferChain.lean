import CHttp.IOBuffer

namespace CHttp

/-- `BufferChain_s`: the items of `m_chain` in order, and the `int` byte count. -/
structure BufferChain where
  mChain : List IOBuffer
  mSize : ℤ
  deriving DecidableEq, Repr

def bufferChainNew : BufferChain := ⟨[], 0⟩

/-- The branch of `BufferChain_append` that allocates a new segment. -/
def bufferChainAddSegment (this : BufferChain) (buf : List Cell) (len : ℤ) : Res BufferChain := do
  let requiredLen := if 256*4*8 < len then cInt (len+100) else 256*4*8
  let newIob ← iobufferNewWithCapacity requiredLen
  let newIob ← iobufferDataAdd newIob buf
  .ok ⟨this.mChain ++ [newIob], cInt (this.mSize+len)⟩

/-- The length reaches `BufferChain_append` as an `int`. A negative one ends
in a `memcpy` of almost the whole address space. -/
def bufferChainAppend (this : BufferChain) (buf : List Cell) : Res BufferChain :=
  let len := cInt buf.length
  if len < 0 then .error .outOfBounds
  else
    let data := buf.take len.toNat
    -- decided by the counter: one that wrapped below zero starts a new segment
    if 0 < this.mSize then
      match this.mChain.getLast? with
      | none => .error .nullPointer
      | some lastIob =>
        if len ≤ iobufferSpaceLen lastIob then do
          let lastIob ← iobufferDataAdd lastIob data
          .ok ⟨this.mChain.dropLast ++ [lastIob], cInt (this.mSize+len)⟩
        else bufferChainAddSegment this data len
    else bufferChainAddSegment this data len

def bufferChainAppendCstr (this : BufferChain) (s : Bytes) : Res BufferChain :=
  bufferChainAppend this ((cstr s).map some)

def bufferChainSize (this : BufferChain) : ℤ := this.mSize

def bufferChainAddBack (this : BufferChain) (iobuf : IOBuffer) : BufferChain :=
  ⟨this.mChain ++ [iobuf], cInt (this.mSize+iobufferDataLen iobuf)⟩

def bufferChainCompact (this : BufferChain) : Res IOBuffer := do
  let iobFinal ← iobufferNewWithCapacity (bufferChainSize this)
  this.mChain.foldlM (fun iob tmp => iobufferDataAdd iob (iobufferData tmp)) iobFinal

def bufferChainAppendIOBuffer (this : BufferChain) (iobuf : IOBuffer) : Res BufferChain :=
  bufferChainAppend this (iobufferData iobuf)

/-- The counter becomes the length of the new buffer alone. -/
def bufferChainAddFront (this : BufferChain) (iobuf : IOBuffer) : BufferChain :=
  ⟨iobuf :: this.mChain, iobufferDataLen iobuf⟩

def bufferChainPopFront (this : BufferChain) : Option IOBuffer × BufferChain :=
  match this.mChain with
  | [] => (none, this)
  | front :: rest => (some front, ⟨rest, cInt (this.mSize-iobufferDataLen front)⟩)

/-- `iter` points at the item with this index. The counter is left as it is. -/
def bufferChainRemoveIter (this : BufferChain) (iter : ℕ) : BufferChain :=
  { this with mChain := this.mChain.eraseIdx iter }

def bufferChainAppendBufferchain (this other : BufferChain) : Res BufferChain :=
  other.mChain.foldlM (fun this iob => do
    let iobDup ← iobufferDup iob
    .ok (bufferChainAddBack this iobDup)) this

/-- The loop of `BufferChain_steal_bufferchain` over what is left of the other chain's
items and counter: both chains at its end. -/
def bufferChainStealLoop (this : BufferChain) : List IOBuffer → ℤ → BufferChain × BufferChain
  | [], size => (this, ⟨[], size⟩)
  | iob :: rest, size =>
    bufferChainStealLoop (bufferChainAddBack this iob) rest (cInt (size-iobufferDataLen iob))

def bufferChainStealBufferchain (this other : BufferChain) : BufferChain × BufferChain :=
  bufferChainStealLoop this other.mChain other.mSize

/-- The live bytes of a chain, front to back. -/
def bufferChainContent (this : BufferChain) : List Cell := this.mChain.flatMap iobufferData

theorem length_flatMap_data {segs : List IOBuffer}
    (h : ∀ iob ∈ segs, (iobufferData iob).length = iobufferDataLen iob) :
    (segs.flatMap iobufferData).length = (segs.map iobufferDataLen).sum := by
  rw [List.length_flatMap]
  exact congrArg List.sum (List.map_congr_left h)

/-- A segment with something in it, none of it consumed. -/
def SegmentOk (iob : IOBuffer) : Prop :=
  iobufferData iob ≠ [] ∧ ∃ c, c+1 < 2^31 ∧ iob.Holds c (iobufferData iob)

/-- A chain of non-empty segments whose bytes are `d`. The counter is right
up to the wrap of `int`. -/
structure BufferChain.Holds (chain : BufferChain) (d : List Cell) : Prop where
  segments : ∀ iob ∈ chain.mChain, SegmentOk iob
  content : bufferChainContent chain = d
  size : chain.mSize = cInt d.length

theorem bufferChainNew_holds : bufferChainNew.Holds [] := ⟨by simp [bufferChainNew], rfl, rfl⟩

theorem holds_nonempty_of_size (chain : BufferChain) (d : List Cell) (h : chain.Holds d)
    (hs : 0 < chain.mSize) : chain.mChain ≠ [] := by
  intro hn
  have hd : d = [] := by rw [← h.content, bufferChainContent, hn]; rfl
  rw [h.size, hd] at hs
  simp [cInt] at hs

theorem segment_append (d e : List Cell) (iob : IOBuffer) (c : ℕ) (hc : c+1 < 2^31)
    (h : iob.Holds c (d ++ e)) (he : e ≠ []) : SegmentOk iob := by
  rw [SegmentOk, h.data]
  exact ⟨by simp [he], c, hc, h⟩

/-- A new segment takes any data whose length leaves `len + 100` an `int`. -/
theorem bufferChainAddSegment_holds (chain : BufferChain) (d b : List Cell) (h : chain.Holds d)
    (hb : b ≠ []) (hl : b.length+101 < 2^31) :
    ∃ chain', bufferChainAddSegment chain b b.length = .ok chain' ∧ chain'.Holds (d ++ b) := by
  have hreq : ∃ c : ℕ, c+1 < 2^31 ∧ b.length ≤ c ∧
      (if (256*4*8 : ℤ) < b.length then cInt ((b.length : ℤ)+100) else 256*4*8) = (c : ℤ) := by
    by_cases hbig : (256*4*8 : ℤ) < b.length
    · refine ⟨b.length+100, by omega, by omega, ?_⟩
      rw [if_pos hbig]
      exact_mod_cast cInt_natCast (b.length+100) (by omega)
    · exact ⟨256*4*8, by decide, by omega, by rw [if_neg hbig]; norm_num⟩
  obtain ⟨c, hc, hbc, hcap⟩ := hreq
  obtain ⟨fresh, hnew, hfresh⟩ := iobufferInit_holds c hc
  obtain ⟨iob, hadd, hiob⟩ := iobufferDataAdd_holds fresh c [] b hfresh hb (by simpa using hbc)
  refine ⟨⟨chain.mChain ++ [iob], cInt (chain.mSize+b.length)⟩, ?_, ?_, ?_, ?_⟩
  · simp only [bufferChainAddSegment, hcap, hnew, ok_bind, hadd]
  · intro x hx
    rcases List.mem_append.mp hx with hx | hx
    · exact h.segments x hx
    · rw [List.mem_singleton.mp hx]
      exact segment_append [] b iob c hc hiob hb
  · have hcont := h.content
    simp only [bufferChainContent, List.flatMap_append, List.flatMap_cons, List.flatMap_nil,
      hiob.data, List.append_nil, List.nil_append] at hcont ⊢
    rw [hcont]
  · simp only [h.size, cInt_add_left, List.length_append, Nat.cast_add]

/-- Bytes that fit behind the last segment go there. -/
theorem appendLast_holds (chain : BufferChain) (d b : List Cell) (h : chain.Holds d) (hb : b ≠ [])
    (last : IOBuffer) (hlast : chain.mChain.getLast? = some last)
    (hfit : (b.length : ℤ) ≤ iobufferSpaceLen last) :
    ∃ last', iobufferDataAdd last b = .ok last' ∧
      BufferChain.Holds ⟨chain.mChain.dropLast ++ [last'], cInt (chain.mSize+b.length)⟩ (d ++ b) := by
  have hsplit : chain.mChain = chain.mChain.dropLast ++ [last] :=
    (List.dropLast_append_getLast? last hlast).symm
  obtain ⟨hdata, c, hc, hlh⟩ := h.segments last (List.mem_of_getLast? hlast)
  have hroom : (iobufferData last).length+b.length ≤ c := by
    simp only [iobufferSpaceLen, hlh.capacity, hlh.ptr, hlh.remaining] at hfit
    omega
  obtain ⟨last', hadd, hlast'⟩ := iobufferDataAdd_holds last c _ b hlh hb hroom
  refine ⟨last', hadd, ?_, ?_, ?_⟩
  · intro x hx
    rcases List.mem_append.mp hx with hx | hx
    · exact h.segments x (List.dropLast_subset _ hx)
    · rw [List.mem_singleton.mp hx]
      exact segment_append _ b last' c hc hlast' hb
  · have hcont := h.content
    rw [bufferChainContent, hsplit] at hcont
    simp only [bufferChainContent, List.flatMap_append, List.flatMap_cons, List.flatMap_nil,
      List.append_nil, hlast'.data] at hcont ⊢
    rw [← hcont, List.append_assoc]
  · simp only [h.size, cInt_add_left, List.length_append, Nat.cast_add]

/-- `BufferChain_append` on a length that `int` can hold. -/
theorem bufferChainAppend_eq (chain : BufferChain) (b : List Cell) (hl : b.length < 2^31) :
    bufferChainAppend chain b =
      if 0 < chain.mSize then
        match chain.mChain.getLast? with
        | none => .error .nullPointer
        | some last =>
          if (b.length : ℤ) ≤ iobufferSpaceLen last then
            iobufferDataAdd last b >>= fun last' =>
              .ok ⟨chain.mChain.dropLast ++ [last'], cInt (chain.mSize+b.length)⟩
          else bufferChainAddSegment chain b b.length
      else bufferChainAddSegment chain b b.length := by
  have hlen : cInt b.length = b.length := cInt_natCast _ hl
  have hneg : ¬((b.length : ℤ) < 0) := by omega
  simp only [bufferChainAppend, hlen, if_neg hneg, Int.toNat_natCast, List.take_length]

/-- `BufferChain_append` adds its bytes at the end, whether they go to the last
segment or to a new one, and whatever the counter has wrapped to. -/
theorem bufferChainAppend_holds (chain : BufferChain) (d b : List Cell) (h : chain.Holds d)
    (hb : b ≠ []) (hl : b.length+101 < 2^31) :
    ∃ chain', bufferChainAppend chain b = .ok chain' ∧ chain'.Holds (d ++ b) := by
  rw [bufferChainAppend_eq chain b (by omega)]
  obtain ⟨seg, hseg, hholds⟩ := bufferChainAddSegment_holds chain d b h hb hl
  by_cases hs : 0 < chain.mSize
  · obtain ⟨last, hlast⟩ : ∃ last, chain.mChain.getLast? = some last :=
      ⟨_, List.getLast?_eq_some_getLast (holds_nonempty_of_size chain d h hs)⟩
    simp only [if_pos hs, hlast]
    by_cases hfit : (b.length : ℤ) ≤ iobufferSpaceLen last
    · obtain ⟨last', hadd, hh⟩ := appendLast_holds chain d b h hb last hlast hfit
      exact ⟨_, by rw [if_pos hfit, hadd, ok_bind], hh⟩
    · exact ⟨seg, by rw [if_neg hfit, hseg], hholds⟩
  · exact ⟨seg, by rw [if_neg hs, hseg], hholds⟩

/-- A new segment that was filled had something to take, and `len + 100` was an `int`. -/
theorem bufferChainAddSegment_inv (chain chain' : BufferChain) (b : List Cell)
    (hl : b.length < 2^31) (hok : bufferChainAddSegment chain b b.length = .ok chain') :
    b ≠ [] ∧ b.length+101 < 2^31 := by
  obtain ⟨fresh, hnew, hok⟩ := (bind_eq_ok _ _ _).mp hok
  obtain ⟨iob, hadd, -⟩ := (bind_eq_ok _ _ _).mp hok
  refine ⟨iobufferDataAdd_ne_nil fresh iob b hadd, ?_⟩
  by_cases hbig : (256*4*8 : ℤ) < b.length
  · rw [if_pos hbig] at hnew
    obtain ⟨c, hc, hc', -⟩ := iobufferNew_add_inv _ (le_cInt _) (cInt_lt _) fresh iob b hnew hadd
    by_contra hover
    rcases lt_or_ge ((b.length : ℤ)+100) (2^31) with hin | hout
    · rw [cInt_of_range _ (by omega) hin] at hc
      omega
    · rw [cInt_wrap _ hout (by omega)] at hc
      omega
  · omega

theorem bufferChainAppend_inv (chain chain' : BufferChain) (d b : List Cell) (h : chain.Holds d)
    (hl : b.length < 2^31) (hok : bufferChainAppend chain b = .ok chain') :
    chain'.Holds (d ++ b) := by
  have hseg : bufferChainAddSegment chain b b.length = .ok chain' → chain'.Holds (d ++ b) := by
    intro hseg
    obtain ⟨hb, hlen⟩ := bufferChainAddSegment_inv chain chain' b hl hseg
    obtain ⟨seg, hseg', hholds⟩ := bufferChainAddSegment_holds chain d b h hb hlen
    obtain rfl : chain' = seg := Except.ok.inj (hseg.symm.trans hseg')
    exact hholds
  rw [bufferChainAppend_eq chain b hl] at hok
  by_cases hs : 0 < chain.mSize
  · obtain ⟨last, hlast⟩ : ∃ last, chain.mChain.getLast? = some last :=
      ⟨_, List.getLast?_eq_some_getLast (holds_nonempty_of_size chain d h hs)⟩
    simp only [if_pos hs, hlast] at hok
    by_cases hfit : (b.length : ℤ) ≤ iobufferSpaceLen last
    · rw [if_pos hfit] at hok
      obtain ⟨last', hadd, hok⟩ := (bind_eq_ok _ _ _).mp hok
      obtain rfl := Except.ok.inj hok
      have hb : b ≠ [] := iobufferDataAdd_ne_nil last last' b hadd
      obtain ⟨last'', hadd', hh⟩ := appendLast_holds chain d b h hb last hlast hfit
      obtain rfl : last' = last'' := Except.ok.inj (hadd.symm.trans hadd')
      exact hh
    · exact hseg (by rwa [if_neg hfit] at hok)
  · exact hseg (by rwa [if_neg hs] at hok)

theorem bufferChainAddBack_holds (chain : BufferChain) (d : List Cell) (iob : IOBuffer)
    (h : chain.Holds d) (hs : SegmentOk iob) :
    (bufferChainAddBack chain iob).Holds (d ++ iobufferData iob) := by
  obtain ⟨c, _, hh⟩ := hs.2
  refine ⟨?_, ?_, ?_⟩
  · intro x hx
    rcases List.mem_append.mp hx with hx | hx
    · exact h.segments x hx
    · exact List.mem_singleton.mp hx ▸ hs
  · simp only [bufferChainContent, bufferChainAddBack, List.flatMap_append, List.flatMap_cons,
      List.flatMap_nil, List.append_nil]
    rw [← h.content, bufferChainContent]
  · simp only [bufferChainAddBack, iobufferDataLen, hh.remaining, h.size, cInt_add_left,
      List.length_append, Nat.cast_add]

/-- The first segment leaves with its bytes. -/
theorem bufferChainPopFront_holds (front : IOBuffer) (rest : List IOBuffer) (size : ℤ) (d : List Cell)
    (h : BufferChain.Holds ⟨front :: rest, size⟩ d) :
    (bufferChainPopFront ⟨front :: rest, size⟩).2.Holds (d.drop (iobufferData front).length) := by
  have hcont : iobufferData front ++ rest.flatMap iobufferData = d := h.content
  have hsize : size = cInt d.length := h.size
  obtain ⟨c, -, hfront⟩ := (h.segments front List.mem_cons_self).2
  refine ⟨fun x hx => h.segments x (List.mem_cons_of_mem _ hx), ?_, ?_⟩
  · rw [← hcont, List.drop_left]
    rfl
  · rw [← hcont, List.drop_left]
    simp only [bufferChainPopFront, iobufferDataLen, hfront.remaining, hsize, sub_eq_add_neg,
      cInt_add_left, ← hcont, List.length_append]
    congr 1
    omega

/-- Copying segments one after another into a buffer with room for them all. -/
theorem compact_fold (segs : List IOBuffer) (iob : IOBuffer) (c : ℕ) (d : List Cell)
    (hs : ∀ s ∈ segs, iobufferData s ≠ []) (h : iob.Holds c d)
    (hf : d.length+(segs.flatMap iobufferData).length ≤ c) :
    ∃ iob', segs.foldlM (fun iob tmp => iobufferDataAdd iob (iobufferData tmp)) iob = .ok iob' ∧
      iob'.Holds c (d ++ segs.flatMap iobufferData) := by
  induction segs generalizing iob d with
  | nil => exact ⟨iob, rfl, by simpa using h⟩
  | cons s segs ih =>
    simp only [List.flatMap_cons, List.length_append] at hf
    obtain ⟨mid, hadd, hmid⟩ := iobufferDataAdd_holds iob c d _ h
      (hs s List.mem_cons_self) (by omega)
    obtain ⟨iob', hfold, hh⟩ := ih mid (d ++ iobufferData s)
      (fun x hx => hs x (List.mem_cons_of_mem _ hx)) hmid (by rw [List.length_append]; omega)
    refine ⟨iob', ?_, by simpa only [List.flatMap_cons, List.append_assoc] using hh⟩
    rw [List.foldlM_cons, hadd, ok_bind, hfold]

theorem compact_fold_inv (segs : List IOBuffer) (iob iob' : IOBuffer) (c : ℕ) (d : List Cell)
    (h : iob.Holds c d)
    (hok : segs.foldlM (fun iob tmp => iobufferDataAdd iob (iobufferData tmp)) iob = .ok iob') :
    iob'.Holds c (d ++ segs.flatMap iobufferData) := by
  induction segs generalizing iob d with
  | nil =>
    obtain rfl := Except.ok.inj hok
    simpa using h
  | cons s segs ih =>
    rw [List.foldlM_cons] at hok
    obtain ⟨mid, hadd, hok⟩ := (bind_eq_ok _ _ _).mp hok
    have hmid := iobufferDataAdd_inv iob mid c d _ h hadd
    simpa only [List.flatMap_cons, List.append_assoc] using ih mid _ hmid hok

/-- A compacted chain is one buffer with the same bytes. -/
theorem bufferChainCompact_holds (chain : BufferChain) (d : List Cell) (h : chain.Holds d)
    (hl : d.length+1 < 2^31) :
    ∃ iob, bufferChainCompact chain = .ok iob ∧ iob.Holds d.length d := by
  obtain ⟨fresh, hnew, hfresh⟩ := iobufferInit_holds d.length hl
  have hcont : chain.mChain.flatMap iobufferData = d := h.content
  obtain ⟨iob, hfold, hh⟩ := compact_fold chain.mChain fresh d.length []
    (fun s hs => (h.segments s hs).1) hfresh (by rw [hcont]; simp)
  have hsize : bufferChainSize chain = d.length := by
    rw [bufferChainSize, h.size, cInt_natCast _ (by omega)]
  rw [hcont, List.nil_append] at hh
  exact ⟨iob, by simp only [bufferChainCompact, hsize, hnew, ok_bind, hfold], hh⟩

/-- A compaction that succeeds has kept all bytes. -/
theorem bufferChainCompact_inv (chain : BufferChain) (d : List Cell) (h : chain.Holds d)
    (iob : IOBuffer) (hok : bufferChainCompact chain = .ok iob) :
    ∃ c, c+1 < 2^31 ∧ iob.Holds c d := by
  obtain ⟨fresh, hnew, hfold⟩ := (bind_eq_ok _ _ _).mp hok
  have hcont : chain.mChain.flatMap iobufferData = d := h.content
  rw [bufferChainSize, h.size] at hnew
  rcases hchain : chain.mChain with _ | ⟨s, segs⟩
  · rw [hchain] at hcont hfold
    obtain rfl : d = [] := hcont.symm
    obtain ⟨iob', hnew', hh⟩ := iobufferInit_holds 0 (by decide)
    obtain rfl : fresh = iob' := Except.ok.inj (hnew.symm.trans hnew')
    obtain rfl := Except.ok.inj hfold
    exact ⟨0, by decide, hh⟩
  · rw [hchain] at hcont hfold
    rw [List.foldlM_cons] at hfold
    obtain ⟨mid, hadd, hfold⟩ := (bind_eq_ok _ _ _).mp hfold
    obtain ⟨c, -, hc, hmid⟩ := iobufferNew_add_inv _ (le_cInt _) (cInt_lt _) fresh mid _ hnew hadd
    have hh := compact_fold_inv segs mid iob c _ hmid hfold
    rw [← List.flatMap_cons, hcont] at hh
    exact ⟨c, hc, hh⟩

/-- A chain whose counter has wrapped below -1 cannot be compacted. -/
theorem bufferChainCompact_wrapped (chain : BufferChain) (d : List Cell) (h : chain.Holds d)
    (hw : cInt d.length < -1) : bufferChainCompact chain = .error .allocation := by
  simp only [bufferChainCompact, bufferChainSize, h.size, iobufferInit_negative _ (le_cInt _) hw,
    error_bind]

/-- A buffer with room for one byte, and a byte in it. -/
def oneByteBuffer : IOBuffer := ⟨[some 97, some 0], 1, 0, 1⟩

end CHttp
