import CHttp.BufferChain

/-! Buffers in memory. A buffer is a struct at one address and a block at another, and the
struct points to the block twice. The calls on a buffer work on its value, read from
memory and written back; `IOBuffer_dup` works on the pointers. -/
namespace CHttp

/-- A pointer into a block. -/
structure BlockPointer where
  block : ℕ
  offset : ℕ
  deriving DecidableEq, Repr

/-- `IOBuffer_s` as it lies in memory; `allocated_capacity` is the length of the block. -/
structure IOBufferObject where
  memP : ℕ
  bufferCapacity : ℤ
  bufferPtr : BlockPointer
  bufferRemaining : ℕ
  deriving DecidableEq, Repr

/-- The structs and the blocks there are, by address. -/
structure BufferHeap where
  objects : ℕ → Option IOBufferObject
  blocks : ℕ → Option (List Cell)

/-- The addresses malloc returns for a new buffer. -/
structure Allocation where
  object : ℕ
  block : ℕ
  deriving DecidableEq, Repr

namespace BufferHeap

/-- Memory with no buffers in it. -/
def empty : BufferHeap := ⟨fun _ => none, fun _ => none⟩

def object (h : BufferHeap) (this : ℕ) : Res IOBufferObject :=
  match h.objects this with
  | none => .error .nullPointer
  | some obj => .ok obj

def block (h : BufferHeap) (memP : ℕ) : Res (List Cell) :=
  match h.blocks memP with
  | none => .error .outOfBounds
  | some mem => .ok mem

/-- The distance of `buffer_ptr` from `mem_p`, which must lie in the same block. -/
def distance (obj : IOBufferObject) : Res ℕ :=
  if obj.bufferPtr.block = obj.memP then .ok obj.bufferPtr.offset else .error .outOfBounds

/-- The value of the buffer at an address. -/
def load (h : BufferHeap) (this : ℕ) : Res IOBuffer := do
  let obj ← h.object this
  let mem ← h.block obj.memP
  let ptr ← distance obj
  .ok ⟨mem, obj.bufferCapacity, ptr, obj.bufferRemaining⟩

/-- A buffer of this value at these addresses. -/
def put (h : BufferHeap) (place : Allocation) (iob : IOBuffer) : BufferHeap where
  objects := Function.update h.objects place.object
    (some ⟨place.block, iob.bufferCapacity, ⟨place.block, iob.bufferPtr⟩, iob.bufferRemaining⟩)
  blocks := Function.update h.blocks place.block (some iob.mem)

/-- A call that works on the buffer's own struct and block. -/
def modify (h : BufferHeap) (this : ℕ) (f : IOBuffer → Res IOBuffer) : Res BufferHeap := do
  let obj ← h.object this
  let iob ← h.load this
  let iob ← f iob
  .ok (h.put ⟨this, obj.memP⟩ iob)

/-- `IOBuffer_new_with_capacity`. -/
def newWithCapacity (h : BufferHeap) (place : Allocation) (capacity : ℤ) : Res BufferHeap := do
  let iob ← iobufferNewWithCapacity capacity
  .ok (h.put place iob)

/-- `IOBuffer_dup`. The copy's `buffer_ptr` is as far from its own `mem_p` as the
original's from its own. -/
def dup (h : BufferHeap) (this : ℕ) (place : Allocation) : Res BufferHeap := do
  let obj ← h.object this
  let h ← h.newWithCapacity place obj.bufferCapacity
  let mem ← h.block obj.memP
  let new ← h.block place.block
  let new ← memWrite new 0 mem
  let ptr ← distance obj
  .ok (h.put place ⟨new, obj.bufferCapacity, ptr, obj.bufferRemaining⟩)

/-- Every struct has a block, and no two have the same. -/
structure Owned (h : BufferHeap) : Prop where
  block : ∀ a obj, h.objects a = some obj → (h.blocks obj.memP).isSome
  apart : ∀ a b obj obj', h.objects a = some obj → h.objects b = some obj' →
    obj.memP = obj'.memP → a = b

/-- Malloc returns addresses that are not in use. -/
structure Fresh (h : BufferHeap) (place : Allocation) : Prop where
  object : h.objects place.object = none
  block : h.blocks place.block = none

/-- The addresses malloc returns in a row. -/
structure FreshAll (h : BufferHeap) (places : List Allocation) : Prop where
  fresh : ∀ place ∈ places, h.Fresh place
  objects : (places.map Allocation.object).Nodup
  blocks : (places.map Allocation.block).Nodup

/-- A buffer may be put here: the block belongs to the struct or to none. -/
def Open (h : BufferHeap) (place : Allocation) : Prop :=
  ∀ a obj, h.objects a = some obj → (obj.memP = place.block ↔ a = place.object)

/-- What `h` becomes when only buffers at the addresses `s` are written or made. -/
structure Changes (h : BufferHeap) (s : Set ℕ) (h' : BufferHeap) : Prop where
  owned : h'.Owned
  alive : ∀ a, (h.objects a).isSome → (h'.objects a).isSome
  kept : ∀ a, a ∉ s → (h.objects a).isSome → h'.load a = h.load a

section load

variable {h : BufferHeap} {place : Allocation} {iob : IOBuffer} {a : ℕ}

theorem object_eq_ok_iff (obj : IOBufferObject) : h.object a = .ok obj ↔ h.objects a = some obj := by
  rw [BufferHeap.object]
  cases h.objects a <;> simp

theorem block_eq_ok_iff (mem : List Cell) : h.block a = .ok mem ↔ h.blocks a = some mem := by
  rw [BufferHeap.block]
  cases h.blocks a <;> simp

theorem load_eq_ok_iff :
    h.load a = .ok iob ↔ ∃ obj, h.objects a = some obj ∧ h.blocks obj.memP = some iob.mem ∧
      distance obj = .ok iob.bufferPtr ∧ obj.bufferCapacity = iob.bufferCapacity ∧
      obj.bufferRemaining = iob.bufferRemaining := by
  simp only [load, bind_eq_ok, object_eq_ok_iff, block_eq_ok_iff]
  constructor
  · rintro ⟨obj, hobj, mem, hmem, ptr, hptr, hval⟩
    obtain rfl := Except.ok.inj hval
    exact ⟨obj, hobj, hmem, hptr, rfl, rfl⟩
  · rintro ⟨obj, hobj, hmem, hptr, hcap, hrem⟩
    exact ⟨obj, hobj, iob.mem, hmem, iob.bufferPtr, hptr, by rw [hcap, hrem]⟩

theorem isSome_of_load (hload : h.load a = .ok iob) : (h.objects a).isSome := by
  obtain ⟨obj, hobj, -⟩ := load_eq_ok_iff.mp hload
  rw [hobj]
  rfl

theorem load_put_self : (h.put place iob).load place.object = .ok iob :=
  load_eq_ok_iff.mpr ⟨_, Function.update_self .., Function.update_self .., if_pos rfl, rfl, rfl⟩

/-- Other buffers do not have this block. -/
theorem load_put_of_ne (hopen : h.Open place) (hne : a ≠ place.object) :
    (h.put place iob).load a = h.load a := by
  have hobject : (h.put place iob).objects a = h.objects a := Function.update_of_ne hne _ _
  cases hobj : h.objects a with
  | none => simp only [load, BufferHeap.object, hobject, hobj, error_bind]
  | some obj =>
    have hblock : (h.put place iob).blocks obj.memP = h.blocks obj.memP :=
      Function.update_of_ne ((hopen a obj hobj).not.mpr hne) _ _
    simp only [load, BufferHeap.object, BufferHeap.block, hobject, hobj, hblock, ok_bind]

theorem Fresh.open (hfresh : h.Fresh place) (hh : h.Owned) : h.Open place := by
  intro a obj hobj
  refine iff_of_false (fun hb => ?_) (fun ha => ?_)
  · have hsome := hh.block a obj hobj
    rw [hb, hfresh.block] at hsome
    cases hsome
  · rw [ha, hfresh.object] at hobj
    cases hobj

theorem Fresh.put {p : Allocation} (hfresh : h.Fresh p) (hobject : p.object ≠ place.object)
    (hblock : p.block ≠ place.block) : (h.put place iob).Fresh p :=
  ⟨(Function.update_of_ne hobject _ h.objects).trans hfresh.object,
    (Function.update_of_ne hblock _ h.blocks).trans hfresh.block⟩

/-- A buffer may be written back to where it was read. -/
theorem Owned.open (hh : h.Owned) {obj : IOBufferObject} (hobj : h.objects a = some obj) :
    h.Open ⟨a, obj.memP⟩ := by
  intro b obj' hobj'
  constructor
  · exact hh.apart b a obj' obj hobj' hobj
  · rintro rfl
    rw [Option.some.inj (hobj'.symm.trans hobj)]

end load

section changes

variable {h h' h'' : BufferHeap} {place : Allocation} {iob : IOBuffer} {s t : Set ℕ} {a : ℕ}

theorem Owned.put (hh : h.Owned) (hopen : h.Open place) : (h.put place iob).Owned := by
  have hat : ∀ a obj, (h.put place iob).objects a = some obj →
      (a = place.object ∧ obj.memP = place.block) ∨
        (a ≠ place.object ∧ h.objects a = some obj ∧ obj.memP ≠ place.block) := by
    intro a obj hobj
    by_cases ha : a = place.object
    · subst ha
      have hself := (Function.update_self place.object _ h.objects).symm.trans hobj
      exact .inl ⟨rfl, by rw [← Option.some.inj hself]⟩
    · have hold := (Function.update_of_ne ha _ h.objects).symm.trans hobj
      exact .inr ⟨ha, hold, (hopen a obj hold).not.mpr ha⟩
  refine ⟨fun a obj hobj => ?_, fun a b obj obj' hobj hobj' hsame => ?_⟩
  · rcases hat a obj hobj with ⟨-, hm⟩ | ⟨-, hold, hm⟩
    · rw [hm]
      exact congrArg Option.isSome (Function.update_self place.block _ h.blocks)
    · have hkept := congrArg Option.isSome (Function.update_of_ne hm (some iob.mem) h.blocks)
      exact hkept.trans (hh.block a obj hold)
  · rcases hat a obj hobj with ⟨ha, hm⟩ | ⟨-, hold, hm⟩ <;>
      rcases hat b obj' hobj' with ⟨hb, hm'⟩ | ⟨-, hold', hm'⟩
    · rw [ha, hb]
    · exact absurd (hsame.symm.trans hm) hm'
    · exact absurd (hsame.trans hm') hm
    · exact hh.apart a b obj obj' hold hold' hsame

theorem empty_owned : empty.Owned := by
  constructor
  · intro a obj hobj
    cases hobj
  · intro a b obj obj' hobj
    cases hobj

theorem Changes.refl (hh : h.Owned) (s : Set ℕ) : h.Changes s h :=
  ⟨hh, fun _ ha => ha, fun _ _ _ => rfl⟩

theorem Changes.trans (h₁ : h.Changes s h') (h₂ : h'.Changes t h'') : h.Changes (s ∪ t) h'' where
  owned := h₂.owned
  alive a ha := h₂.alive a (h₁.alive a ha)
  kept a hs ha := by
    rw [Set.mem_union, not_or] at hs
    rw [h₂.kept a hs.2 (h₁.alive a ha), h₁.kept a hs.1 ha]

theorem Changes.mono (hc : h.Changes s h') (hst : s ⊆ t) : h.Changes t h' :=
  ⟨hc.owned, hc.alive, fun a ht => hc.kept a fun hs => ht (hst hs)⟩

/-- Steps that all stay within one set of addresses stay in it together. -/
theorem Changes.trans_self (h₁ : h.Changes s h') (h₂ : h'.Changes s h'') : h.Changes s h'' :=
  (h₁.trans h₂).mono (Set.union_self s).subset

theorem changes_put (hh : h.Owned) (hopen : h.Open place) :
    h.Changes {place.object} (h.put place iob) := by
  refine ⟨hh.put hopen, fun a ha => ?_, fun a ha _ => load_put_of_ne hopen ha⟩
  by_cases hat : a = place.object
  · rw [hat]
    exact congrArg Option.isSome (Function.update_self place.object _ h.objects)
  · exact (congrArg Option.isSome (Function.update_of_ne hat _ h.objects)).trans ha

theorem changes_newWithCapacity (hh : h.Owned) (hfresh : h.Fresh place) {capacity : ℤ}
    (hx : h.newWithCapacity place capacity = .ok h') : h.Changes {place.object} h' := by
  obtain ⟨iob, -, hx⟩ := (bind_eq_ok _ _ _).mp hx
  obtain rfl := Except.ok.inj hx
  exact changes_put hh (hfresh.open hh)

theorem changes_modify (hh : h.Owned) {f : IOBuffer → Res IOBuffer} (hx : h.modify a f = .ok h') :
    h.Changes {a} h' := by
  obtain ⟨obj, hobj, hx⟩ := (bind_eq_ok _ _ _).mp hx
  obtain ⟨iob, -, hx⟩ := (bind_eq_ok _ _ _).mp hx
  obtain ⟨iob', -, hx⟩ := (bind_eq_ok _ _ _).mp hx
  obtain rfl := Except.ok.inj hx
  exact changes_put hh (hh.open ((object_eq_ok_iff obj).mp hobj))

/-- A call on a buffer is the call on its value. -/
theorem modify_ok {f : IOBuffer → Res IOBuffer} {iob' : IOBuffer} (hload : h.load a = .ok iob)
    (hf : f iob = .ok iob') : ∃ h', h.modify a f = .ok h' ∧ h'.load a = .ok iob' := by
  obtain ⟨obj, hobj, -⟩ := load_eq_ok_iff.mp hload
  refine ⟨h.put ⟨a, obj.memP⟩ iob', ?_, load_put_self⟩
  simp only [modify, (object_eq_ok_iff obj).mpr hobj, hload, hf, ok_bind]

theorem newWithCapacity_ok (h : BufferHeap) (place : Allocation) {capacity : ℤ}
    (hnew : iobufferNewWithCapacity capacity = .ok iob) :
    ∃ h', h.newWithCapacity place capacity = .ok h' ∧ h'.load place.object = .ok iob :=
  ⟨h.put place iob, by simp only [newWithCapacity, hnew, ok_bind], load_put_self⟩

/-- A copy is made by writing twice to its own place. -/
theorem dup_eq_put (hx : h.dup a place = .ok h') :
    ∃ new copy, h' = (h.put place new).put place copy := by
  obtain ⟨obj, -, hx⟩ := (bind_eq_ok _ _ _).mp hx
  obtain ⟨mid, hnew, hx⟩ := (bind_eq_ok _ _ _).mp hx
  obtain ⟨new, -, hnew⟩ := (bind_eq_ok _ _ _).mp hnew
  obtain rfl := Except.ok.inj hnew
  obtain ⟨mem, -, hx⟩ := (bind_eq_ok _ _ _).mp hx
  obtain ⟨old, -, hx⟩ := (bind_eq_ok _ _ _).mp hx
  obtain ⟨copy, -, hx⟩ := (bind_eq_ok _ _ _).mp hx
  obtain ⟨ptr, -, hx⟩ := (bind_eq_ok _ _ _).mp hx
  exact ⟨new, _, (Except.ok.inj hx).symm⟩

theorem changes_dup (hh : h.Owned) (hfresh : h.Fresh place) (hx : h.dup a place = .ok h') :
    h.Changes {place.object} h' := by
  have hopen := hfresh.open hh
  obtain ⟨new, copy, rfl⟩ := dup_eq_put hx
  have hmid : (h.put place new).Owned := hh.put hopen
  exact (changes_put hh hopen).trans_self (changes_put hmid (hmid.open (Function.update_self ..)))

/-- The copy has the value of `IOBuffer_dup`'s result, in a block of its own. -/
theorem dup_ok (hfresh : h.Fresh place) {iob' : IOBuffer} (hload : h.load a = .ok iob)
    (hdup : iobufferDup iob = .ok iob') :
    ∃ h', h.dup a place = .ok h' ∧ h'.load place.object = .ok iob' := by
  obtain ⟨obj, hobj, hmem, hptr, hcap, hrem⟩ := load_eq_ok_iff.mp hload
  obtain ⟨new, hnew, hdup⟩ := (bind_eq_ok _ _ _).mp hdup
  obtain ⟨copy, hcopy, hdup⟩ := (bind_eq_ok _ _ _).mp hdup
  obtain rfl := Except.ok.inj hdup
  have hne : obj.memP ≠ place.block := by
    intro hsame
    rw [hsame, hfresh.block] at hmem
    cases hmem
  have hfrom : (h.put place new).block obj.memP = .ok iob.mem :=
    (block_eq_ok_iff _).mpr ((Function.update_of_ne hne _ h.blocks).trans hmem)
  have hinto : (h.put place new).block place.block = .ok new.mem :=
    (block_eq_ok_iff _).mpr (Function.update_self ..)
  refine ⟨(h.put place new).put place { iob with mem := copy }, ?_, load_put_self⟩
  simp only [dup, (object_eq_ok_iff obj).mpr hobj, newWithCapacity, hcap, hnew, ok_bind, hfrom, hinto,
    hcopy, hptr, hrem]

/-- After a copy the addresses still to come are fresh. -/
theorem FreshAll.dup {places : List Allocation} (hfresh : h.FreshAll (place :: places))
    (hx : h.dup a place = .ok h') : h'.FreshAll places := by
  obtain ⟨hobjects, hnodup⟩ := List.nodup_cons.mp hfresh.objects
  obtain ⟨hblocks, hnodup'⟩ := List.nodup_cons.mp hfresh.blocks
  refine ⟨fun p hp => ?_, hnodup, hnodup'⟩
  have hold := hfresh.fresh p (List.mem_cons_of_mem _ hp)
  have hobject : p.object ≠ place.object := fun he => hobjects (he ▸ List.mem_map_of_mem hp)
  have hblock : p.block ≠ place.block := fun he => hblocks (he ▸ List.mem_map_of_mem hp)
  obtain ⟨new, copy, rfl⟩ := dup_eq_put hx
  exact (hold.put hobject hblock).put hobject hblock

end changes

end BufferHeap

end CHttp
