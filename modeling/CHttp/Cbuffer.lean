import CHttp.CMemory

/-! `Cbuffer` seen as the byte string appended since its last clear, with the capacity of its
block. The block itself is the subject of `CbufferSlab`. -/
namespace CHttp

/-- `common_strategy`. -/
def strategyMinSize : ℕ := 256
def strategyMaxSize : ℕ := 1024*1024

/-- `terminated` says whether the byte behind the data is known to be NUL. In a
fresh block it is not: nothing was written there yet. -/
structure Cbuffer where
  data : Bytes
  mCapacity : ℕ
  terminated : Bool
  fits : data.length ≤ mCapacity
  bounded : mCapacity ≤ strategyMaxSize
  known : data ≠ [] → terminated = true
  deriving DecidableEq

theorem strategyMinSize_le : strategyMinSize ≤ strategyMaxSize := by decide

def cbufferNew : Cbuffer :=
  ⟨[], strategyMinSize, false, by simp, strategyMinSize_le, by simp⟩

def cbufferSize (cbuf : Cbuffer) : ℕ := cbuf.data.length

def cbufferClear (cbuf : Cbuffer) : Cbuffer :=
  { cbuf with data := [], terminated := true, fits := by simp, known := fun _ => rfl }

/-- `BufferStrategy_reallocate_size`, once its assertion has passed. -/
def strategyReallocateSize (currentCapacity requested : ℕ) : ℕ :=
  max requested (min strategyMaxSize (2*currentCapacity))

/-- `Cbuffer_append` up to its terminator: the bytes join those in the buffer, and the growth
strategy's assertion bounds how many there are. -/
def cbufferAppendBytes (cbuf : Cbuffer) (d : Bytes) : Res Cbuffer :=
  if d = [] then .ok cbuf
  else if hc : cbuf.data.length+d.length < cbuf.mCapacity then
    .ok { cbuf with
      data := cbuf.data ++ d
      terminated := true
      fits := by rw [List.length_append]; omega
      known := fun _ => rfl }
  else if hm : cbuf.data.length+d.length ≤ strategyMaxSize then
    .ok
      { data := cbuf.data ++ d
        mCapacity := strategyReallocateSize cbuf.mCapacity (cbuf.data.length+d.length)
        terminated := true
        fits := by rw [List.length_append]; exact le_max_left _ _
        bounded := max_le hm (min_le_left _ _)
        known := fun _ => rfl }
  else .error (.assertion "requested_new_size > bsref->m_max_size")

/-- `Cbuffer_append`. The terminator goes behind the data, for which a reallocation may have
left no byte in the block. -/
def cbufferAppend (cbuf : Cbuffer) (d : Bytes) : Res Cbuffer := do
  let cbuf ← cbufferAppendBytes cbuf d
  if d = [] ∨ cbuf.data.length < cbuf.mCapacity then .ok cbuf else .error .outOfBounds

/-- `Cbuffer_append_cstr`, over one of the two appends. -/
def cbufferAppendCstr (append : Cbuffer → Bytes → Res Cbuffer) (cbuf : Cbuffer) (s : Bytes) :
    Res Cbuffer :=
  append cbuf (cstr s)

/-- `Cbuffer_cstr` asserts the terminator, whose value a fresh block leaves open. -/
def cbufferCstr (cbuf : Cbuffer) : Res Bytes :=
  if cbuf.terminated then .ok (cstr cbuf.data) else .error .indeterminate

@[simp] theorem cbufferClear_data (cbuf : Cbuffer) : (cbufferClear cbuf).data = [] := rfl

/-- The capacity with which `requested` bytes are stored. -/
def strategyCapacity (currentCapacity requested : ℕ) : ℕ :=
  if requested < currentCapacity then currentCapacity
  else strategyReallocateSize currentCapacity requested

theorem le_strategyCapacity (capacity requested : ℕ) :
    capacity ≤ strategyCapacity capacity requested := by
  rw [strategyCapacity]
  split_ifs with h
  · exact le_rfl
  · exact (not_lt.mp h).trans (le_max_left _ _)

/-- What the growth strategy looks at. -/
structure CbufferSizes where
  capacity : ℕ
  length : ℕ
  deriving DecidableEq

def Cbuffer.sizes (cbuf : Cbuffer) : CbufferSizes := ⟨cbuf.mCapacity, cbuf.data.length⟩

namespace CbufferSizes

/-- The sizes of a buffer that is empty. -/
def empty (capacity : ℕ) : CbufferSizes := ⟨capacity, 0⟩

def append (z : CbufferSizes) (d : Bytes) : CbufferSizes :=
  if d = [] then z else ⟨strategyCapacity z.capacity (z.length+d.length), z.length+d.length⟩

/-- An append of nothing is no append. Anything else needs room for all the bytes together,
given the capacity there is. -/
def Takes (room : ℕ → ℕ → Prop) (z : CbufferSizes) (d : Bytes) : Prop :=
  d = [] ∨ room z.capacity (z.length+d.length)

instance decidableTakes (room : ℕ → ℕ → Prop) [∀ capacity n, Decidable (room capacity n)]
    (z : CbufferSizes) (d : Bytes) : Decidable (z.Takes room d) :=
  inferInstanceAs (Decidable (_ ∨ _))

theorem append_length (z : CbufferSizes) (d : Bytes) : (z.append d).length = z.length+d.length := by
  rw [append]
  split_ifs with hd
  · rw [hd, List.length_nil, Nat.add_zero]
  · rfl

theorem le_append_capacity (z : CbufferSizes) (d : Bytes) : z.capacity ≤ (z.append d).capacity := by
  rw [append]
  split_ifs with hd
  · exact le_rfl
  · exact le_strategyCapacity _ _

end CbufferSizes

/-- Room for the bytes alone, up to the strategy's limit. -/
def bytesRoom (_capacity requested : ℕ) : Prop := requested ≤ strategyMaxSize

/-- Room in the block for the bytes and their terminator: a request of twice the capacity or
more is answered with as many bytes as were asked for. -/
def blockRoom (capacity requested : ℕ) : Prop := requested < min strategyMaxSize (2*capacity)

instance decidableBlockRoom (capacity requested : ℕ) : Decidable (blockRoom capacity requested) :=
  inferInstanceAs (Decidable (_ < _))

/-- `cbuf'` is `cbuf` after an append of `d`. -/
structure Cbuffer.Extended (cbuf : Cbuffer) (d : Bytes) (cbuf' : Cbuffer) : Prop where
  data : cbuf'.data = cbuf.data ++ d
  terminated : cbuf.terminated = true ∨ d ≠ [] → cbuf'.terminated = true
  sizes : cbuf'.sizes = cbuf.sizes.append d

/-- A function that appends bytes to a buffer, and fails exactly where there is no room. -/
def Appends (append : Cbuffer → Bytes → Res Cbuffer) (room : ℕ → ℕ → Prop) : Prop :=
  ∀ cbuf d, OkIff (append cbuf d) (cbuf.Extended d) (cbuf.sizes.Takes room d)

theorem Cbuffer.extended_nil (cbuf : Cbuffer) : cbuf.Extended [] cbuf where
  data := (List.append_nil _).symm
  terminated := fun h => h.resolve_right (not_not_intro rfl)
  sizes := rfl

theorem Cbuffer.extended_of_ne {cbuf cbuf' : Cbuffer} {d : Bytes} (hd : d ≠ [])
    (hdata : cbuf'.data = cbuf.data ++ d) (hterm : cbuf'.terminated = true)
    (hcap : cbuf'.mCapacity = strategyCapacity cbuf.mCapacity (cbuf.data.length+d.length)) :
    cbuf.Extended d cbuf' := by
  refine ⟨hdata, fun _ => hterm, ?_⟩
  rw [CbufferSizes.append, if_neg hd, Cbuffer.sizes, hdata, List.length_append, hcap]
  rfl

theorem cbufferAppendBytes_appends : Appends cbufferAppendBytes bytesRoom := by
  intro cbuf d
  rw [cbufferAppendBytes]
  have hbounded := cbuf.bounded
  by_cases hd : d = []
  · subst hd
    exact .of_ok (if_pos rfl) cbuf.extended_nil (.inl rfl)
  · have htakes : cbuf.sizes.Takes bytesRoom d ↔ cbuf.data.length+d.length ≤ strategyMaxSize :=
      or_iff_right hd
    rw [if_neg hd]
    split_ifs with hc hm
    · refine .of_ok rfl (Cbuffer.extended_of_ne hd rfl rfl ?_) (htakes.mpr (hc.le.trans hbounded))
      rw [strategyCapacity, if_pos hc]
    · refine .of_ok rfl (Cbuffer.extended_of_ne hd rfl rfl ?_) (htakes.mpr hm)
      rw [strategyCapacity, if_neg hc]
    · exact .of_error rfl (htakes.not.mpr hm)

/-- A block that grew has a byte behind the data exactly if it was not asked for twice its
capacity. -/
theorem lt_strategyCapacity_iff {capacity requested : ℕ} (hc : capacity ≤ strategyMaxSize) :
    requested < strategyCapacity capacity requested ↔ blockRoom capacity requested := by
  rw [strategyCapacity, blockRoom]
  split_ifs with h
  · exact iff_of_true h (lt_min (h.trans_le hc) (by omega))
  · rw [strategyReallocateSize, lt_max_iff]
    exact or_iff_right (lt_irrefl _)

theorem cbufferAppendBytes_refused {cbuf : Cbuffer} {d : Bytes} (hd : d ≠ [])
    (h : strategyMaxSize < cbuf.data.length+d.length) :
    cbufferAppendBytes cbuf d = .error (.assertion "requested_new_size > bsref->m_max_size") := by
  have hbounded := cbuf.bounded
  rw [cbufferAppendBytes, if_neg hd, dif_neg (by omega), dif_neg (not_le.mpr h)]

theorem cbufferAppend_refused {cbuf : Cbuffer} {d : Bytes} (hd : d ≠ [])
    (h : strategyMaxSize < cbuf.data.length+d.length) :
    cbufferAppend cbuf d = .error (.assertion "requested_new_size > bsref->m_max_size") := by
  rw [cbufferAppend, cbufferAppendBytes_refused hd h, error_bind]

/-- The bytes go in, and the terminator decides. -/
theorem cbufferAppend_eq {cbuf : Cbuffer} {d : Bytes} (hd : d ≠ [])
    (h : cbuf.data.length+d.length ≤ strategyMaxSize) :
    ∃ cbuf', cbuf.Extended d cbuf' ∧ cbufferAppend cbuf d =
      if blockRoom cbuf.mCapacity (cbuf.data.length+d.length) then .ok cbuf' else .error .outOfBounds := by
  obtain ⟨cbuf', happend⟩ := (cbufferAppendBytes_appends cbuf d).iff.mpr (.inr h)
  have hext := (cbufferAppendBytes_appends cbuf d).result cbuf' happend
  have hsizes := hext.sizes
  rw [CbufferSizes.append, if_neg hd] at hsizes
  have hlength : cbuf'.data.length = cbuf.data.length+d.length := congrArg CbufferSizes.length hsizes
  have hcapacity : cbuf'.mCapacity = strategyCapacity cbuf.mCapacity (cbuf.data.length+d.length) :=
    congrArg CbufferSizes.capacity hsizes
  have hplace : (d = [] ∨ cbuf'.data.length < cbuf'.mCapacity) ↔
      blockRoom cbuf.mCapacity (cbuf.data.length+d.length) := by
    rw [or_iff_right hd, hlength, hcapacity, lt_strategyCapacity_iff cbuf.bounded]
  refine ⟨cbuf', hext, ?_⟩
  rw [cbufferAppend, happend, ok_bind]
  exact if_congr hplace rfl rfl

theorem cbufferAppend_appends : Appends cbufferAppend blockRoom := by
  intro cbuf d
  by_cases hd : d = []
  · subst hd
    exact .of_ok rfl cbuf.extended_nil (.inl rfl)
  · have htakes : cbuf.sizes.Takes blockRoom d ↔
        blockRoom cbuf.mCapacity (cbuf.data.length+d.length) := or_iff_right hd
    rcases Nat.lt_or_ge strategyMaxSize (cbuf.data.length+d.length) with hlt | hle
    · refine .of_error (cbufferAppend_refused hd hlt) fun h => ?_
      exact absurd ((htakes.mp h).trans_le (min_le_left _ _)) (not_lt.mpr hlt.le)
    · obtain ⟨cbuf', hext, happend⟩ := cbufferAppend_eq hd hle
      rw [happend]
      split_ifs with hroom
      · exact .of_ok rfl hext (htakes.mpr hroom)
      · exact .of_error rfl (htakes.not.mpr hroom)

section frags

variable {append : Cbuffer → Bytes → Res Cbuffer} {room : ℕ → ℕ → Prop}

/-- The sizes after appends of some fragments. -/
def CbufferSizes.appendAll (z : CbufferSizes) (frags : List Bytes) : CbufferSizes :=
  frags.foldl CbufferSizes.append z

/-- Fragments that go one after another into a buffer. -/
def CbufferSizes.TakesAll (room : ℕ → ℕ → Prop) (z : CbufferSizes) (frags : List Bytes) : Prop :=
  Machine.Admits CbufferSizes.append (CbufferSizes.Takes room) z frags

instance CbufferSizes.decidableTakesAll (room : ℕ → ℕ → Prop)
    [∀ capacity n, Decidable (room capacity n)] (z : CbufferSizes) (frags : List Bytes) :
    Decidable (z.TakesAll room frags) :=
  inferInstanceAs (Decidable (Machine.Admits _ _ _ _))

/-- `cbuf'` is `cbuf` after appends of `frags`. -/
structure Cbuffer.ExtendedBy (cbuf : Cbuffer) (frags : List Bytes) (cbuf' : Cbuffer) : Prop where
  data : cbuf'.data = cbuf.data ++ frags.flatten
  terminated : cbuf.terminated = true → cbuf'.terminated = true
  sizes : cbuf'.sizes = cbuf.sizes.appendAll frags

theorem Appends.fold (happ : Appends append room) (frags : List Bytes) (cbuf : Cbuffer) :
    OkIff (frags.foldlM append cbuf) (cbuf.ExtendedBy frags) (cbuf.sizes.TakesAll room frags) := by
  induction frags generalizing cbuf with
  | nil => exact .of_ok rfl ⟨(List.append_nil _).symm, id, rfl⟩ trivial
  | cons d frags ih =>
    rw [List.foldlM_cons]
    refine (happ cbuf d).andThen fun mid hmid => ?_
    rw [← hmid.sizes]
    refine (ih mid).imp fun cbuf' hrest => ⟨?_, ?_, ?_⟩
    · rw [hrest.data, hmid.data, List.append_assoc, List.flatten_cons]
    · exact fun ht => hrest.terminated (hmid.terminated (.inl ht))
    · rw [hrest.sizes, hmid.sizes]
      rfl

theorem CbufferSizes.le_appendAll_capacity (z : CbufferSizes) (frags : List Bytes) :
    z.capacity ≤ (z.appendAll frags).capacity := by
  induction frags generalizing z with
  | nil => exact le_rfl
  | cons d frags ih => exact (z.le_append_capacity d).trans (ih (z.append d))

/-- A text of `n` bytes has room in every buffer, however it is cut. -/
def AlwaysFits (room : ℕ → ℕ → Prop) (n : ℕ) : Prop :=
  ∀ capacity requested, strategyMinSize ≤ capacity → requested ≤ n → room capacity requested

theorem bytesRoom_always {n : ℕ} (h : n ≤ strategyMaxSize) : AlwaysFits bytesRoom n :=
  fun _ _ _ hr => hr.trans h

/-- A block of the smallest capacity doubles for as long as it has to. -/
theorem blockRoom_always {n : ℕ} (h : n < 2*strategyMinSize) : AlwaysFits blockRoom n := by
  intro capacity requested hc hr
  have hmax : 2*strategyMinSize ≤ strategyMaxSize := by decide
  exact lt_min (by omega) (by omega)

theorem AlwaysFits.takes {d : Bytes} (h : AlwaysFits room d.length) {capacity : ℕ}
    (hc : strategyMinSize ≤ capacity) : (CbufferSizes.empty capacity).Takes room d :=
  .inr (h capacity _ hc (Nat.zero_add _).le)

theorem CbufferSizes.takesAll_of_always (frags : List Bytes) (z : CbufferSizes)
    (hc : strategyMinSize ≤ z.capacity) (h : AlwaysFits room (z.length+frags.flatten.length)) :
    z.TakesAll room frags := by
  induction frags generalizing z with
  | nil => exact trivial
  | cons d frags ih =>
    rw [List.flatten_cons, List.length_append, ← Nat.add_assoc] at h
    refine ⟨.inr (h _ _ hc (Nat.le_add_right _ _)), ih _ (hc.trans (z.le_append_capacity d)) ?_⟩
    rw [z.append_length]
    exact h

theorem AlwaysFits.takesAll {frags : List Bytes} (h : AlwaysFits room frags.flatten.length)
    {capacity : ℕ} (hc : strategyMinSize ≤ capacity) :
    (CbufferSizes.empty capacity).TakesAll room frags :=
  CbufferSizes.takesAll_of_always frags _ hc (by rwa [CbufferSizes.empty, Nat.zero_add])

end frags

end CHttp
