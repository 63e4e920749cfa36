import CHttp.HttpParser

/-! Header fields through the parser. A pair is committed only by a later callback,
so the account is kept over committed and pending pairs together. -/
namespace CHttp

variable {append : Cbuffer → Bytes → Res Cbuffer} {room : ℕ → ℕ → Prop} {mem : ℕ → MessageMem}

/-- The pair that waits in the name and value buffers. -/
def pendingPair (this : HttpMessageParser) : List KVPair :=
  if this.mNameBuf.data = [] then [] else [kvpairNew this.mNameBuf.data this.mValueBuf.data]

/-- The parser `p` inside a header block: its message, the two field buffers and
the header state have moved on, everything else is as it was. -/
def HttpMessageParser.holding (p : HttpMessageParser) (m : HttpMessage) (n v : Cbuffer)
    (st : HeaderState) : HttpMessageParser :=
  { p with currentMessage := some m, mNameBuf := n, mValueBuf := v, mHeaderState := st }

theorem runCallbacks_append (p : HttpMessageParser) (cs ds : List Callback) :
    runCallbacks append mem p (cs ++ ds) = runCallbacks append mem p cs >>= fun q => runCallbacks append mem q ds :=
  List.foldlM_append

theorem runCallbacks_cons (p : HttpMessageParser) (c : Callback) (cs : List Callback) :
    runCallbacks append mem p (c :: cs) = parserCallback append mem p c >>= fun q => runCallbacks append mem q cs :=
  List.foldlM_cons

theorem runCallbacks_nil (p : HttpMessageParser) : runCallbacks append mem p [] = .ok p := rfl

/-- After the first fragment of a name the others only extend it. -/
theorem run_name_tail (p : HttpMessageParser) (hs : p.mHeaderState = .field) (frags : List Bytes) :
    runCallbacks append mem p (frags.map .headerField) =
      frags.foldlM append p.mNameBuf >>= fun b => .ok { p with mNameBuf := b } := by
  rw [runCallbacks, List.foldlM_map]
  refine foldlM_component _ append (fun b => { p with mNameBuf := b }) ?_ p.mNameBuf frags
  intro b t
  simp only [parserCallback, headerFieldDataCb, hs, ok_bind]

theorem run_value_tail (p : HttpMessageParser) (hs : p.mHeaderState = .value) (frags : List Bytes) :
    runCallbacks append mem p (frags.map .headerValue) =
      frags.foldlM append p.mValueBuf >>= fun b => .ok { p with mValueBuf := b } := by
  rw [runCallbacks, List.foldlM_map]
  refine foldlM_component _ append (fun b => { p with mValueBuf := b }) ?_ p.mValueBuf frags
  intro b t
  simp only [parserCallback, headerValueDataCb, hs]

/-- A name whose first fragment arrives outside of a name commits the pair before it. -/
theorem run_name (p : HttpMessageParser) (hs : p.mHeaderState ≠ .field) (frags : List Bytes)
    (hf : frags ≠ []) :
    runCallbacks append mem p (frags.map .headerField) =
      commitHeader p >>= fun q => frags.foldlM append q.mNameBuf >>= fun b =>
        .ok { q with mNameBuf := b, mHeaderState := .field } := by
  cases frags with
  | nil => exact absurd rfl hf
  | cons t frags =>
    have hfirst : parserCallback append mem p (.headerField t) =
        commitHeader p >>= fun q => append q.mNameBuf t >>= fun b =>
          .ok { q with mNameBuf := b, mHeaderState := .field } := by
      simp only [parserCallback, headerFieldDataCb]
      cases hp : p.mHeaderState with
      | field => exact absurd hp hs
      | nothing => rfl
      | value => rfl
    rw [List.map_cons, runCallbacks_cons, hfirst]
    cases commitHeader p with
    | error e => rfl
    | ok q =>
      simp only [ok_bind, List.foldlM_cons]
      cases append q.mNameBuf t with
      | error e => rfl
      | ok b =>
        simp only [ok_bind]
        rw [run_name_tail _ rfl]

theorem run_value (p : HttpMessageParser) (hs : p.mHeaderState = .field) (frags : List Bytes)
    (hf : frags ≠ []) :
    runCallbacks append mem p (frags.map .headerValue) =
      frags.foldlM append (cbufferClear p.mValueBuf) >>= fun b =>
        .ok { p with mValueBuf := b, mHeaderState := .value } := by
  cases frags with
  | nil => exact absurd rfl hf
  | cons t frags =>
    rw [List.map_cons, runCallbacks_cons, List.foldlM_cons]
    simp only [parserCallback, headerValueDataCb, hs]
    cases append (cbufferClear p.mValueBuf) t with
    | error e => rfl
    | ok b =>
      simp only [ok_bind]
      rw [run_value_tail _ rfl]

theorem FieldFrags.name_ne_nil (f : FieldFrags) : f.name ≠ [] := by
  intro h
  exact f.name_ne (by rw [h]; rfl)

/-- Everything one field does, whatever its fragments are. -/
theorem run_field (p : HttpMessageParser) (hs : p.mHeaderState ≠ .field) (f : FieldFrags) :
    runCallbacks append mem p f.callbacks =
      commitHeader p >>= fun q => f.name.foldlM append q.mNameBuf >>= fun n =>
        f.value.foldlM append (cbufferClear q.mValueBuf) >>= fun v =>
          .ok { q with mNameBuf := n, mValueBuf := v, mHeaderState := .value } := by
  rw [FieldFrags.callbacks, runCallbacks_append, run_name p hs _ f.name_ne_nil]
  cases commitHeader p with
  | error e => rfl
  | ok q =>
    simp only [ok_bind]
    cases f.name.foldlM append q.mNameBuf with
    | error e => rfl
    | ok n =>
      simp only [ok_bind]
      rw [run_value _ rfl _ f.value_ne]

/-- Committing moves the pending pair behind the message's own and leaves the
name buffer empty. -/
theorem commitHeader_eq (p : HttpMessageParser) (m : HttpMessage) (hm : p.currentMessage = some m) :
    ∃ n v, commitHeader p = .ok (p.holding { m with headers := m.headers ++ pendingPair p } n v
      p.mHeaderState) ∧ n.data = [] ∧ n.mCapacity = p.mNameBuf.mCapacity ∧
      v.mCapacity = p.mValueBuf.mCapacity := by
  by_cases hn : p.mNameBuf.data = []
  · refine ⟨p.mNameBuf, p.mValueBuf, ?_, hn, rfl, rfl⟩
    have hz : cbufferSize p.mNameBuf = 0 := by simp [cbufferSize, hn]
    rw [commitHeader, if_neg (not_not_intro hz), pendingPair, if_pos hn, List.append_nil,
      HttpMessageParser.holding, ← hm]
  · refine ⟨cbufferClear p.mNameBuf, cbufferClear p.mValueBuf, ?_, rfl, rfl, rfl⟩
    have hz : cbufferSize p.mNameBuf ≠ 0 := by simpa [cbufferSize] using hn
    rw [commitHeader, if_pos hz, pendingPair, if_neg hn]
    simp only [HttpMessageParser.current, hm, ok_bind, httpMessageAddHeaderCbuf, hdrListAddCbuf,
      HttpMessageParser.holding]

/-- The capacities of the name and the value buffer, which only grow. -/
structure FieldCapacities where
  name : ℕ
  value : ℕ
  deriving DecidableEq

def HttpMessageParser.fieldCapacities (p : HttpMessageParser) : FieldCapacities :=
  ⟨p.mNameBuf.mCapacity, p.mValueBuf.mCapacity⟩

/-- The capacities after a field. Both buffers are empty when it begins. -/
def FieldFrags.grow (c : FieldCapacities) (f : FieldFrags) : FieldCapacities :=
  ⟨((CbufferSizes.empty c.name).appendAll f.name).capacity,
    ((CbufferSizes.empty c.value).appendAll f.value).capacity⟩

/-- A field all of whose text fits the parser's buffers. -/
def FieldFrags.Fits (room : ℕ → ℕ → Prop) (c : FieldCapacities) (f : FieldFrags) : Prop :=
  (CbufferSizes.empty c.name).TakesAll room f.name ∧
    (CbufferSizes.empty c.value).TakesAll room f.value

/-- Fields that fit one after another. -/
def FieldsFit (room : ℕ → ℕ → Prop) (c : FieldCapacities) (fs : List FieldFrags) : Prop :=
  Machine.Admits FieldFrags.grow (FieldFrags.Fits room) c fs

instance FieldFrags.decidableFits [∀ capacity n, Decidable (room capacity n)] (c : FieldCapacities)
    (f : FieldFrags) : Decidable (f.Fits room c) :=
  inferInstanceAs (Decidable (_ ∧ _))

instance decidableFieldsFit [∀ capacity n, Decidable (room capacity n)] (c : FieldCapacities)
    (fs : List FieldFrags) : Decidable (FieldsFit room c fs) :=
  inferInstanceAs (Decidable (Machine.Admits _ _ _ _))

theorem Cbuffer.sizes_of_empty {cbuf : Cbuffer} (h : cbuf.data = []) :
    cbuf.sizes = .empty cbuf.mCapacity := by
  rw [Cbuffer.sizes, h]
  rfl

/-- A field that fits the buffers: the pair before it is committed, its own waits. -/
theorem run_field_okIff (happ : Appends append room) (p : HttpMessageParser) (m : HttpMessage)
    (f : FieldFrags) (hm : p.currentMessage = some m) (hs : p.mHeaderState ≠ .field) :
    OkIff (runCallbacks append mem p f.callbacks)
      (fun q => q.fieldCapacities = f.grow p.fieldCapacities ∧ ∃ n v,
        q = p.holding { m with headers := m.headers ++ pendingPair p } n v .value ∧
        n.data = f.name.flatten ∧ v.data = f.value.flatten)
      (f.Fits room p.fieldCapacities) := by
  obtain ⟨n0, v0, hc, hn0, hncap, hvcap⟩ := commitHeader_eq p m hm
  have hname := happ.fold f.name n0
  have hvalue := happ.fold f.value (cbufferClear v0)
  rw [Cbuffer.sizes_of_empty hn0, hncap] at hname
  rw [Cbuffer.sizes_of_empty (cbufferClear_data v0)] at hvalue
  rw [run_field p hs f, hc, ok_bind]
  refine hname.andThen fun n hn => ?_
  have hcap : (cbufferClear v0).mCapacity = p.mValueBuf.mCapacity := hvcap
  rw [hcap] at hvalue
  refine hvalue.bind _ fun v hv => ⟨?_, n, v, rfl, ?_, ?_⟩
  · have hnsizes := hn.sizes
    have hvsizes := hv.sizes
    rw [Cbuffer.sizes_of_empty hn0, hncap] at hnsizes
    rw [Cbuffer.sizes_of_empty (cbufferClear_data v0), hcap] at hvsizes
    exact congrArg₂ FieldCapacities.mk (congrArg CbufferSizes.capacity hnsizes)
      (congrArg CbufferSizes.capacity hvsizes)
  · rw [hn.data, hn0, List.nil_append]
  · rw [hv.data, cbufferClear_data, List.nil_append]

/-- Any number of fields: committed and pending pairs together grow by exactly
the fields' pairs, in order, and a pair is pending once there was a field. -/
theorem run_fields_okIff (happ : Appends append room) (fs : List FieldFrags) (p : HttpMessageParser)
    (m : HttpMessage) (hm : p.currentMessage = some m) (hs : p.mHeaderState ≠ .field) :
    OkIff (runCallbacks append mem p (fs.flatMap FieldFrags.callbacks))
      (fun q => q.fieldCapacities = fs.foldl FieldFrags.grow p.fieldCapacities ∧ ∃ hs n v st,
        q = p.holding { m with headers := hs } n v st ∧ st ≠ .field ∧
        hs ++ (if n.data = [] then [] else [kvpairNew n.data v.data]) =
          m.headers ++ pendingPair p ++ fs.map FieldFrags.pair ∧
        (fs ≠ [] → n.data ≠ []) ∧ (fs = [] → n = p.mNameBuf))
      (FieldsFit room p.fieldCapacities fs) := by
  induction fs generalizing p m with
  | nil =>
    refine .of_ok rfl ⟨rfl, m.headers, p.mNameBuf, p.mValueBuf, p.mHeaderState, ?_, hs,
      by simp [pendingPair], fun h => absurd rfl h, fun _ => rfl⟩ trivial
    rw [HttpMessageParser.holding, ← hm]
  | cons f fs ih =>
    rw [List.flatMap_cons, runCallbacks_append]
    refine (run_field_okIff happ p m f hm hs).andThen ?_
    rintro q ⟨hcap, n1, v1, rfl, hn1, hv1⟩
    rw [← hcap]
    refine (ih _ _ rfl (by simp [HttpMessageParser.holding])).imp ?_
    rintro q ⟨hcaps, hs', n, v, st, rfl, hst, hcol, hne, heq⟩
    refine ⟨?_, hs', n, v, st, rfl, hst, ?_, fun _ => ?_, fun h => by simp at h⟩
    · rw [hcaps, hcap, List.foldl_cons]
    · rw [hcol]
      simp [HttpMessageParser.holding, pendingPair, hn1, hv1, f.name_ne, FieldFrags.pair]
    · by_cases hfs : fs = []
      · rw [heq hfs]
        exact hn1 ▸ f.name_ne
      · exact hne hfs

/-- Capacities of blocks that only grew. -/
structure FieldCapacities.Grown (c : FieldCapacities) : Prop where
  name : strategyMinSize ≤ c.name
  value : strategyMinSize ≤ c.value

theorem FieldCapacities.Grown.grow {c : FieldCapacities} (h : c.Grown) (f : FieldFrags) :
    (f.grow c).Grown where
  name := h.name.trans (CbufferSizes.le_appendAll_capacity (.empty c.name) f.name)
  value := h.value.trans (CbufferSizes.le_appendAll_capacity (.empty c.value) f.value)

theorem FieldCapacities.Grown.growAll {c : FieldCapacities} (h : c.Grown) (fs : List FieldFrags) :
    (fs.foldl FieldFrags.grow c).Grown := by
  induction fs generalizing c with
  | nil => exact h
  | cons f fs ih => exact ih (h.grow f)

/-- Fields of short texts fit, whatever was read before. -/
theorem fieldsFit_of_always (fs : List FieldFrags) (c : FieldCapacities) (hc : c.Grown)
    (h : ∀ f ∈ fs, AlwaysFits room f.name.flatten.length ∧ AlwaysFits room f.value.flatten.length) :
    FieldsFit room c fs := by
  induction fs generalizing c with
  | nil => exact trivial
  | cons f fs ih =>
    obtain ⟨hf, hfs⟩ := List.forall_mem_cons.mp h
    exact ⟨⟨hf.1.takesAll hc.name, hf.2.takesAll hc.value⟩, ih _ (hc.grow f) hfs⟩

theorem fieldsFit_append (fs gs : List FieldFrags) (c : FieldCapacities) :
    FieldsFit room c (fs ++ gs) ↔
      FieldsFit room c fs ∧ FieldsFit room (fs.foldl FieldFrags.grow c) gs :=
  Machine.admits_append _ _ _

end CHttp
