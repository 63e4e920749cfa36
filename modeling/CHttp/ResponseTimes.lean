import CHttp.CMemory

/-! `ResponseTimesArray`: an array that two functions make longer, each in its own way, while
the size by which both decide to do so is never changed. -/
namespace CHttp

/-- `ResponseTimesArray_s` without its times. The readings are doubles, which are only copied,
so their type is left open. -/
structure ResponseTimesArray (α : Type) where
  sizeInDoubles : ℤ
  nextIndex : ℤ
  readingsPtr : List (Option α)
  deriving DecidableEq, Repr

section source

variable {α : Type}

def rtaNew (sizeInDoubles : ℤ) : ResponseTimesArray α :=
  ⟨sizeInDoubles, 0, List.replicate sizeInDoubles.toNat none⟩

def rtaLength (this : ResponseTimesArray α) : ℤ := this.nextIndex

/-- The memory grows, and `size_in_doubles` stays. -/
def rtaExpand (this : ResponseTimesArray α) (toNbrDoubles : ℤ) : Res (ResponseTimesArray α) := do
  cAssert (this.sizeInDoubles < toNbrDoubles) "to_nbr_doubles > this->size_in_doubles"
  .ok { this with readingsPtr := arrayRealloc this.readingsPtr toNbrDoubles.toNat }

/-- The two statements that both functions end in: a reading is stored and counted. -/
def rtaPut (this : ResponseTimesArray α) (value : α) : Res (ResponseTimesArray α) :=
  if this.nextIndex < 0 then .error .outOfBounds
  else do
    let readings ← arrayWrite this.readingsPtr this.nextIndex.toNat value
    .ok { this with readingsPtr := readings, nextIndex := cInt (this.nextIndex+1) }

def rtaAdd (this : ResponseTimesArray α) (value : α) : Res (ResponseTimesArray α) := do
  let this ← if this.sizeInDoubles ≤ cInt (this.nextIndex+1) then
      rtaExpand this (cInt (this.sizeInDoubles*2))
    else .ok this
  rtaPut this value

/-- The loop of `rta_append` from `i` on, with so many readings still to copy. -/
def rtaAppendLoop (src : ResponseTimesArray α) :
    ℕ → ℕ → ResponseTimesArray α → Res (ResponseTimesArray α)
  | _, 0, dest => .ok dest
  | i, left+1, dest => do
    let value ← arrayRead src.readingsPtr i
    let dest ← rtaPut dest value
    rtaAppendLoop src (i+1) left dest

def rtaAppend (dest src : ResponseTimesArray α) : Res (ResponseTimesArray α) := do
  let dest ← if dest.sizeInDoubles < cInt (dest.nextIndex+src.nextIndex) then
      rtaExpand dest (cInt (dest.nextIndex+src.nextIndex))
    else .ok dest
  rtaAppendLoop src 0 src.nextIndex.toNat dest

def rtaAtIndex (this : ResponseTimesArray α) (index : ℤ) : Res α := do
  cAssert (index < this.nextIndex) "index < this->next_index"
  if index < 0 then .error .outOfBounds else arrayRead this.readingsPtr index.toNat

end source

/-- What an array is for: the values added to it. Its first size comes along. -/
structure RtaValues (α : Type) where
  size : ℕ
  values : List α
  deriving DecidableEq, Repr

/-- Calls on any number of arrays, which are named by their addresses. -/
inductive RtaEvent (α : Type) where
  | new (this size : ℕ)
  | add (this : ℕ) (value : α)
  | append (dest src : ℕ)
  deriving DecidableEq, Repr

abbrev RtaModel (α : Type) := ℕ → Option (RtaValues α)

namespace RtaEvent

variable {α : Type} (m : RtaModel α)

def apply : RtaEvent α → RtaModel α
  | .new this size => Function.update m this (some ⟨size, []⟩)
  | .add this value =>
    Function.update m this ((m this).map fun v => ⟨v.size, v.values ++ [value]⟩)
  | .append dest src =>
    Function.update m dest
      ((m dest).map fun v => ⟨v.size, v.values ++ ((m src).map RtaValues.values).getD []⟩)

/-- A new array has at least one element and a size that is an `int`, and an array is
appended to another one. -/
def Enabled : RtaEvent α → Prop
  | .new this size => m this = none ∧ 1 ≤ size ∧ size < 2^31
  | .add this _ => m this ≠ none
  | .append dest src => dest ≠ src ∧ m dest ≠ none ∧ m src ≠ none

/-- An array takes one more value as long as it has fewer than twice its first size, or as
long as it need not grow where twice that size is no `int`. It takes the values of another
array as long as an `int` counts them. -/
def Fits : RtaEvent α → Prop
  | .new _ _ => True
  | .add this _ => ∀ v ∈ m this,
      v.values.length+1 < v.size ∨ 2*v.size < 2^31 ∧ v.values.length < 2*v.size
  | .append dest src => ∀ v ∈ m dest, ∀ u ∈ m src, v.values.length+u.values.length < 2^31

instance [DecidableEq α] (e : RtaEvent α) : Decidable (e.Enabled m) :=
  match e with
  | .new this size => inferInstanceAs (Decidable (m this = none ∧ 1 ≤ size ∧ size < 2^31))
  | .add this _ => inferInstanceAs (Decidable (m this ≠ none))
  | .append dest src => inferInstanceAs (Decidable (dest ≠ src ∧ m dest ≠ none ∧ m src ≠ none))

instance (e : RtaEvent α) : Decidable (e.Fits m) :=
  match e with
  | .new _ _ => inferInstanceAs (Decidable True)
  | .add this _ => inferInstanceAs (Decidable (∀ v ∈ m this,
      v.values.length+1 < v.size ∨ 2*v.size < 2^31 ∧ v.values.length < 2*v.size))
  | .append dest src => inferInstanceAs (Decidable
      (∀ v ∈ m dest, ∀ u ∈ m src, v.values.length+u.values.length < 2^31))

end RtaEvent

/-- The arrays in memory, and what they are for. -/
structure RtaWorld (α : Type) where
  arrays : ℕ → Option (ResponseTimesArray α)
  model : RtaModel α

namespace RtaWorld

variable {α : Type}

def init : RtaWorld α := ⟨fun _ => none, fun _ => none⟩

def array (w : RtaWorld α) (this : ℕ) : Res (ResponseTimesArray α) :=
  match w.arrays this with
  | none => .error .nullPointer
  | some rta => .ok rta

def exec (w : RtaWorld α) (e : RtaEvent α) : Res (RtaWorld α) :=
  match e with
  | .new this size => .ok ⟨Function.update w.arrays this (some (rtaNew size)), e.apply w.model⟩
  | .add this value => do
    let rta ← w.array this
    let rta ← rtaAdd rta value
    .ok ⟨Function.update w.arrays this (some rta), e.apply w.model⟩
  | .append dest src => do
    let destRta ← w.array dest
    let srcRta ← w.array src
    let rta ← rtaAppend destRta srcRta
    .ok ⟨Function.update w.arrays dest (some rta), e.apply w.model⟩

end RtaWorld

def rtaMachine (α : Type) : Machine (RtaWorld α) (RtaEvent α) Fault :=
  ⟨fun w e => e.Enabled w.model, RtaWorld.exec⟩

instance {α : Type} [DecidableEq α] (w : RtaWorld α) (e : RtaEvent α) :
    Decidable ((rtaMachine α).enabled w e) :=
  inferInstanceAs (Decidable (e.Enabled w.model))

/-- The array is what was added to it: in its length, by its indices, and within its memory. -/
structure ResponseTimesArray.Reads {α : Type} (this : ResponseTimesArray α) (values : List α) :
    Prop where
  length : rtaLength this = values.length
  within : this.nextIndex ≤ this.readingsPtr.length
  atIndex : ∀ i (h : i < values.length), rtaAtIndex this i = .ok values[i]

def RtaWorld.Reads {α : Type} (w : RtaWorld α) : Prop :=
  ∀ this v, w.model this = some v → ∃ rta, w.arrays this = some rta ∧ rta.Reads v.values

namespace ResponseTimesArray

variable {α : Type}

/-- The values stand at the beginning of the memory, and the next index behind them. -/
structure Filled (this : ResponseTimesArray α) (values : List α) : Prop where
  next : this.nextIndex = values.length
  cells : this.readingsPtr.take values.length = values.map some
  small : this.readingsPtr.length < 2^31

/-- Whatever the memory was made by, there is as much as at first. -/
structure Holds (this : ResponseTimesArray α) (v : RtaValues α) : Prop where
  filled : this.Filled v.values
  size : this.sizeInDoubles = v.size
  pos : 1 ≤ v.size
  room : v.size ≤ this.readingsPtr.length

variable {this dest src : ResponseTimesArray α} {values : List α} {v u : RtaValues α}

theorem Filled.length_le (h : this.Filled values) : values.length ≤ this.readingsPtr.length := by
  have hlen := congrArg List.length h.cells
  rw [List.length_take, List.length_map] at hlen
  omega

theorem Filled.getElem? (h : this.Filled values) (i : ℕ) (hi : i < values.length) :
    this.readingsPtr[i]? = some (some values[i]) := by
  rw [← List.getElem?_take_of_lt hi, h.cells, List.getElem?_map, List.getElem?_eq_getElem hi]
  rfl

theorem Filled.reads (h : this.Filled values) : this.Reads values := by
  refine ⟨h.next, ?_, fun i hi => ?_⟩
  · rw [h.next]
    exact_mod_cast h.length_le
  · have hlt : (i : ℤ) < this.nextIndex := by
      rw [h.next]
      exact_mod_cast hi
    have hpos : ¬(i : ℤ) < 0 := by omega
    rw [rtaAtIndex, decide_eq_true hlt, cAssert_true, ok_bind, if_neg hpos, Int.toNat_natCast]
    exact arrayRead_ok _ _ _ (h.getElem? i hi)

theorem Filled.length_lt (h : this.Filled values) : values.length < 2^31 :=
  h.length_le.trans_lt h.small

theorem rtaPut_full (this : ResponseTimesArray α) {n : ℕ} (hnext : this.nextIndex = n)
    (hfull : this.readingsPtr.length ≤ n) (value : α) : rtaPut this value = .error .outOfBounds := by
  have hpos : ¬this.nextIndex < 0 := by
    rw [hnext]
    omega
  rw [rtaPut, if_neg hpos, hnext, Int.toNat_natCast, arrayWrite, if_neg (not_lt.mpr hfull),
    error_bind]

/-- A reading is stored if there is memory for it. -/
theorem rtaPut_okIff (h : this.Filled values) (value : α) :
    OkIff (rtaPut this value)
      (fun t => t.Filled (values ++ [value]) ∧ t.sizeInDoubles = this.sizeInDoubles ∧
        t.readingsPtr.length = this.readingsPtr.length)
      (values.length < this.readingsPtr.length) := by
  by_cases hroom : values.length < this.readingsPtr.length
  · have hpos : ¬this.nextIndex < 0 := by
      rw [h.next]
      omega
    have hindex : this.nextIndex.toNat = values.length := by
      rw [h.next, Int.toNat_natCast]
    have hnext : cInt (this.nextIndex+1) = (values ++ [value]).length := by
      have hsmall := h.small
      rw [h.next, cInt_of_range _ (by omega) (by omega), List.length_append, List.length_singleton]
      rfl
    rw [rtaPut, if_neg hpos, hindex, arrayWrite_ok _ _ _ hroom, ok_bind]
    refine .of_ok rfl ⟨⟨hnext, ?_, ?_⟩, rfl, ?_⟩ hroom
    · rw [List.length_append, List.length_singleton, List.map_append, ← h.cells, List.take_set,
        List.take_add_one]
      rw [List.set_append_right _ _ (by rw [List.length_take]; omega), List.length_take,
        Nat.min_eq_left hroom.le, Nat.sub_self, List.getElem?_eq_getElem hroom]
      rfl
    · rw [List.length_set]
      exact h.small
    · exact List.length_set
  · exact .of_error (rtaPut_full this h.next (not_lt.mp hroom) value) hroom

/-- The loop copies if there is memory for all that is left. -/
theorem rtaAppendLoop_okIff (h : dest.Filled values) (i : ℕ) (rest : List α)
    (hsrc : ∀ j (hj : j < rest.length), src.readingsPtr[i+j]? = some (some rest[j])) :
    OkIff (rtaAppendLoop src i rest.length dest)
      (fun t => t.Filled (values ++ rest) ∧ t.sizeInDoubles = dest.sizeInDoubles ∧
        t.readingsPtr.length = dest.readingsPtr.length)
      (values.length+rest.length ≤ dest.readingsPtr.length) := by
  induction rest generalizing dest values i with
  | nil =>
    rw [List.append_nil]
    exact .of_ok rfl ⟨h, rfl, rfl⟩ h.length_le
  | cons value rest ih =>
    have hread : arrayRead src.readingsPtr i = .ok value :=
      arrayRead_ok _ _ _ (hsrc 0 (Nat.zero_lt_succ _))
    rw [List.length_cons, rtaAppendLoop, hread, ok_bind]
    refine ((rtaPut_okIff h value).andThen
      (b := values.length+(rest.length+1) ≤ dest.readingsPtr.length) ?_).congr
      ⟨fun hab => hab.2, fun hb => ⟨by omega, hb⟩⟩
    rintro t ⟨ht, hsize, hlen⟩
    have hrest := ih ht (i+1) fun j hj => by
      have hnext := hsrc (j+1) (Nat.succ_lt_succ hj)
      rwa [List.getElem_cons_succ, ← Nat.add_assoc, Nat.add_right_comm] at hnext
    rw [hsize, hlen, List.append_assoc, List.singleton_append, List.length_append,
      List.length_singleton, Nat.add_assoc, Nat.add_comm 1] at hrest
    exact hrest

/-- Memory that is made larger than the first size, and stays large enough for the values. -/
theorem Holds.expand (h : this.Holds v) (n : ℕ) (hsize : v.size < n) (hvalues : v.values.length ≤ n)
    (hsmall : n < 2^31) :
    ∃ t, rtaExpand this n = .ok t ∧ t.Holds v ∧ t.readingsPtr.length = n := by
  have hlt : this.sizeInDoubles < n := by
    rw [h.size]
    exact_mod_cast hsize
  have hlen := length_arrayRealloc this.readingsPtr n
  refine ⟨{ this with readingsPtr := arrayRealloc this.readingsPtr n }, ?_,
    ⟨⟨h.filled.next, ?_, ?_⟩, h.size, h.pos, ?_⟩, hlen⟩
  · rw [rtaExpand, decide_eq_true hlt, cAssert_true, ok_bind, Int.toNat_natCast]
  · rw [← h.filled.cells]
    exact take_arrayRealloc _ _ _ hvalues h.filled.length_le
  · rw [hlen]
    exact hsmall
  · rw [hlen]
    exact hsize.le

/-- An array as a call on it leaves it, with the values that it has then. -/
theorem Holds.of_filled (h : this.Holds v) {t : ResponseTimesArray α} {values : List α}
    (ht : t.Filled values) (hsize : t.sizeInDoubles = this.sizeInDoubles)
    (hlen : t.readingsPtr.length = this.readingsPtr.length) : t.Holds ⟨v.size, values⟩ := by
  refine ⟨ht, hsize.trans h.size, h.pos, ?_⟩
  rw [hlen]
  exact h.room

/-- A reading is stored as long as there is memory for it. -/
theorem Holds.put (h : this.Holds v) (value : α) :
    OkIff (rtaPut this value) (fun t => t.Holds ⟨v.size, v.values ++ [value]⟩)
      (v.values.length < this.readingsPtr.length) := by
  apply (rtaPut_okIff h.filled value).imp
  intro t ht
  exact h.of_filled ht.1 ht.2.1 ht.2.2

/-- The branch of `rta_add` that expands: it makes room if twice the first size is an `int`, and
more than the values there are. -/
theorem expandPut_okIff (h : this.Holds v) (value : α) :
    OkIff (rtaExpand this (cInt (v.size*2)) >>= fun t => rtaPut t value)
      (fun t => t.Holds ⟨v.size, v.values ++ [value]⟩)
      (2*v.size < 2^31 ∧ v.values.length < 2*v.size) := by
  have hsmall := h.filled.small
  have hroom := h.room
  have hpos := h.pos
  by_cases hdouble : 2*v.size < 2^31
  · rw [cInt_of_range (v.size*2) (by omega) (by omega)]
    by_cases hfits : v.values.length < 2*v.size
    · obtain ⟨t, hx, ht, hlen⟩ := h.expand (2*v.size) (by omega) (by omega) hdouble
      rw [show (v.size : ℤ)*2 = (2*v.size : ℕ) by omega, hx, ok_bind]
      exact (ht.put value).congr (iff_of_true (by omega) ⟨hdouble, hfits⟩)
    · have hassert : decide (this.sizeInDoubles < (v.size : ℤ)*2) = true := by
        rw [h.size]
        exact decide_eq_true (by omega)
      have hfull : (arrayRealloc this.readingsPtr ((v.size : ℤ)*2).toNat).length ≤
          v.values.length := by
        rw [length_arrayRealloc]
        omega
      rw [rtaExpand, hassert, cAssert_true, ok_bind, ok_bind]
      exact .of_error
        (rtaPut_full ⟨_, this.nextIndex, arrayRealloc _ _⟩ h.filled.next hfull value) (by omega)
  · have hassert : decide (this.sizeInDoubles < cInt (v.size*2)) = false := by
      rw [h.size, cInt_wrap _ (by omega) (by omega)]
      exact decide_eq_false (by omega)
    rw [rtaExpand, hassert, cAssert_false, error_bind, error_bind]
    exact .of_error rfl (by omega)

theorem rtaAdd_okIff (h : this.Holds v) (value : α) :
    OkIff (rtaAdd this value) (fun t => t.Holds ⟨v.size, v.values ++ [value]⟩)
      (v.values.length+1 < v.size ∨ 2*v.size < 2^31 ∧ v.values.length < 2*v.size) := by
  have hlength := h.filled.length_lt
  have hsmall := h.filled.small
  have hroom := h.room
  rw [rtaAdd, h.size, h.filled.next]
  by_cases hlast : v.values.length+1 = 2^31
  · have hneg : ¬(v.size : ℤ) ≤ cInt (v.values.length+1) := by
      rw [cInt_wrap _ (by omega) (by omega)]
      omega
    rw [if_neg hneg, ok_bind]
    exact (h.put value).congr (iff_of_false (by omega) (by omega))
  rw [cInt_of_range (v.values.length+1) (by omega) (by omega)]
  by_cases hgrow : (v.size : ℤ) ≤ v.values.length+1
  · rw [if_pos hgrow]
    exact (expandPut_okIff h value).congr
      ⟨fun hfits => .inr hfits, fun hfits => hfits.resolve_left (by omega)⟩
  · rw [if_neg hgrow, ok_bind]
    exact (h.put value).congr (iff_of_true (by omega) (.inl (by omega)))

theorem rtaAppend_okIff (h : dest.Holds v) (hsrc : src.Holds u) :
    OkIff (rtaAppend dest src) (fun t => t.Holds ⟨v.size, v.values ++ u.values⟩)
      (v.values.length+u.values.length < 2^31) := by
  have hlength := h.filled.length_lt
  have hlength' := hsrc.filled.length_lt
  have hsmall := h.filled.small
  have hroom := h.room
  have hcopy {t : ResponseTimesArray α} (ht : t.Holds v) :
      OkIff (rtaAppendLoop src 0 u.values.length t)
        (fun t => t.Holds ⟨v.size, v.values ++ u.values⟩)
        (v.values.length+u.values.length ≤ t.readingsPtr.length) := by
    apply (rtaAppendLoop_okIff ht.filled 0 u.values ?_).imp
    · intro t' ht'
      exact ht.of_filled ht'.1 ht'.2.1 ht'.2.2
    · intro j hj
      rw [Nat.zero_add]
      exact hsrc.filled.getElem? j hj
  rw [rtaAppend, h.size, h.filled.next, hsrc.filled.next, Int.toNat_natCast]
  by_cases htotal : v.values.length+u.values.length < 2^31
  · rw [cInt_of_range (v.values.length+u.values.length) (by omega) (by omega)]
    by_cases hgrow : (v.size : ℤ) < v.values.length+u.values.length
    · obtain ⟨t, hx, ht, hlen⟩ := h.expand (v.values.length+u.values.length) (by omega) (by omega)
        htotal
      rw [if_pos hgrow, ← Nat.cast_add, hx, ok_bind]
      exact (hcopy ht).congr (iff_of_true hlen.ge htotal)
    · rw [if_neg hgrow, ok_bind]
      exact (hcopy h).congr (iff_of_true (by omega) htotal)
  · have hneg : ¬(v.size : ℤ) < cInt (v.values.length+u.values.length) := by
      rw [cInt_wrap _ (by omega) (by omega)]
      omega
    rw [if_neg hneg, ok_bind]
    exact (hcopy h).congr (iff_of_false (by omega) htotal)

theorem rtaNew_holds (size : ℕ) (hpos : 1 ≤ size) (hsmall : size < 2^31) :
    (rtaNew size : ResponseTimesArray α).Holds ⟨size, []⟩ := by
  have hlen : (rtaNew size : ResponseTimesArray α).readingsPtr.length = size := by
    rw [rtaNew, List.length_replicate, Int.toNat_natCast]
  refine ⟨⟨rfl, rfl, ?_⟩, rfl, hpos, hlen.ge⟩
  rw [hlen]
  exact hsmall

end ResponseTimesArray

namespace RtaWorld

variable {α : Type} {w t : RtaWorld α}

/-- Every array that there should be is there, and holds its values. -/
def Known (w : RtaWorld α) : Prop :=
  ∀ this v, w.model this = some v → ∃ rta, w.arrays this = some rta ∧ rta.Holds v

theorem Known.reads (h : w.Known) : w.Reads := by
  intro this v hv
  obtain ⟨rta, hrta, hholds⟩ := h this v hv
  exact ⟨rta, hrta, hholds.filled.reads⟩

/-- One array is made or changed, and its values with it. -/
theorem Known.update (h : w.Known) (this : ℕ) (rta : ResponseTimesArray α) (v : RtaValues α)
    (hholds : rta.Holds v) :
    Known ⟨Function.update w.arrays this (some rta), Function.update w.model this (some v)⟩ := by
  intro that u hu
  by_cases heq : that = this
  · subst heq
    obtain rfl := Option.some.inj ((Function.update_self that _ w.model).symm.trans hu)
    exact ⟨rta, Function.update_self that _ w.arrays, hholds⟩
  · obtain ⟨rta', hrta', hholds'⟩ := h that u ((Function.update_of_ne heq _ w.model).symm.trans hu)
    exact ⟨rta', (Function.update_of_ne heq _ w.arrays).trans hrta', hholds'⟩

theorem Known.array (h : w.Known) {this : ℕ} (hne : w.model this ≠ none) :
    ∃ v rta, w.model this = some v ∧ w.array this = .ok rta ∧ rta.Holds v := by
  obtain ⟨v, hv⟩ := Option.ne_none_iff_exists'.mp hne
  obtain ⟨rta, hrta, hholds⟩ := h this v hv
  exact ⟨v, rta, hv, by rw [RtaWorld.array, hrta], hholds⟩

/-- A call returns exactly when it fits, and then every array still holds its values. -/
theorem Known.step (h : w.Known) (e : RtaEvent α) (he : e.Enabled w.model) :
    OkIff (w.exec e) (fun t => t.Known ∧ t.model = e.apply w.model)
      (e.Enabled w.model ∧ e.Fits w.model) := by
  have hboth {a : Prop} (ha : e.Fits w.model ↔ a) : a ↔ e.Enabled w.model ∧ e.Fits w.model := by
    rw [ha]
    exact ⟨fun h => ⟨he, h⟩, fun h => h.2⟩
  cases e with
  | new this size =>
    obtain ⟨-, hpos, hsmall⟩ := he
    exact .of_ok rfl ⟨h.update this _ _ (ResponseTimesArray.rtaNew_holds size hpos hsmall), rfl⟩
      ((hboth (iff_true_intro trivial)).mp trivial)
  | add this value =>
    obtain ⟨v, rta, hv, harray, hholds⟩ := h.array he
    rw [exec, harray, ok_bind]
    apply OkIff.congr _ (hboth ?_)
    · exact v.values.length+1 < v.size ∨ 2*v.size < 2^31 ∧ v.values.length < 2*v.size
    · apply (ResponseTimesArray.rtaAdd_okIff hholds value).bind
      intro t ht
      refine ⟨?_, rfl⟩
      rw [RtaEvent.apply, hv]
      exact h.update this t _ ht
    · simp only [RtaEvent.Fits, hv, Option.mem_some_iff, forall_eq']
  | append dest src =>
    obtain ⟨v, rta, hv, harray, hholds⟩ := h.array he.2.1
    obtain ⟨u, rta', hu, harray', hholds'⟩ := h.array he.2.2
    rw [exec, harray, ok_bind, harray', ok_bind]
    apply OkIff.congr _ (hboth ?_)
    · exact v.values.length+u.values.length < 2^31
    · apply (ResponseTimesArray.rtaAppend_okIff hholds hholds').bind
      intro t ht
      refine ⟨?_, rfl⟩
      rw [RtaEvent.apply, hv, hu]
      exact h.update dest t _ ht
    · simp only [RtaEvent.Fits, hv, hu, Option.mem_some_iff, forall_eq']

end RtaWorld

/-- Calls on any number of arrays go through, with every array equal to what was added to it
and no write outside the memory, exactly if each array that has to grow has fewer than twice
its first size of values, and counts of values are an `int`. -/
theorem rta_grows_iff {α : Type} (es : List (RtaEvent α)) :
    (rtaMachine α).Performs RtaWorld.Reads .init es ↔
      Machine.Admits RtaEvent.apply (fun m e => e.Enabled m ∧ e.Fits m) (fun _ => none) es := by
  apply Machine.performs_iff_admits (J := fun w _ => w.Known) RtaWorld.model
  · intro w es h
    exact h.reads
  · intro w e es _ he
    exact he.1
  · intro w e es h he
    exact h.step e he
  · intro this v hv
    cases hv

/-- Three values go into an array that was made for two, and then two more from another. -/
theorem rta_grows_two :
    (rtaMachine ℕ).Performs RtaWorld.Reads .init
      [.new 0 2, .add 0 10, .add 0 20, .add 0 30, .new 1 1, .add 1 40, .add 1 50, .append 0 1] :=
  (rta_grows_iff _).mpr (by decide)

/-- The memory for one value is made long enough for two, and a third is written behind it. -/
theorem rta_add_overruns :
    ∃ w, (rtaMachine ℕ).Run .init [.new 0 1, .add 0 10, .add 0 20] w ∧
      (rtaMachine ℕ).enabled w (.add 0 30) ∧ w.exec (.add 0 30) = .error .outOfBounds := by
  refine ⟨_, .cons ?_ rfl (.cons ?_ rfl (.cons ?_ rfl (.nil _))), ?_, rfl⟩ <;> decide

end CHttp
