import CHttp.FunctorList

/-! `EventTable`, from which the kqueue runloop takes the memory of its watchers. The
indices of the free slots go around in a ring with one entry to spare. -/
namespace CHttp

def runloopMaxEvents : ℕ := runloopMaxFds*2
def evtMax : ℕ := runloopMaxEvents

/-- `FreeList_s`. An entry of `buffer` is `none` until something is written to it. No field
gets larger than `EVT_MAX+1`, so the `uint16_t` of the source do not overflow. -/
structure FreeList where
  count : ℕ
  maxEntries : ℕ
  moduloMax : ℕ
  rdix : ℕ
  wrix : ℕ
  buffer : List (Option ℕ)
  size : buffer.length = evtMax+1
  deriving DecidableEq

def freelistIsFull (fl : FreeList) : Bool := fl.count = fl.maxEntries

def freelistIsEmpty (fl : FreeList) : Bool := fl.count = 0

def freelistAdd (fl : FreeList) (element : ℕ) : Res FreeList := do
  cAssert (!freelistIsFull fl) "!freelist_is_full(fl)"
  if fl.wrix < fl.buffer.length then
    .ok { fl with
      count := fl.count+1
      buffer := fl.buffer.set fl.wrix (some element)
      wrix := (fl.wrix+1)%fl.moduloMax
      size := List.length_set.trans fl.size }
  else .error .outOfBounds

def freelistGet (fl : FreeList) : Res (ℕ × FreeList) := do
  cAssert (!freelistIsEmpty fl) "!freelist_is_empty(fl)"
  let v ← arrayRead fl.buffer fl.rdix
  .ok (v, { fl with count := fl.count-1, rdix := (fl.rdix+1)%fl.moduloMax })

def freelistSize (fl : FreeList) : ℕ := fl.count

def freelistInit (fl : FreeList) : Res FreeList :=
  (List.range evtMax).foldlM freelistAdd
    { fl with count := 0, rdix := 0, wrix := 0, maxEntries := evtMax, moduloMax := evtMax+1 }

/-- What the list holds, oldest first. -/
def FreeList.stored (fl : FreeList) : List (Option ℕ) :=
  (List.range fl.count).map fun i => fl.buffer.getD ((fl.rdix+i)%fl.moduloMax) none

/-- A pointer into the memory of an event table. -/
abbrev EntryRef := Fin (evtMax+1)

/-- `MemorySlab_s`: what the owner keeps in the slot, and the index behind it. -/
structure MemorySlab (α : Type) where
  event : Option α
  myIndex : Option ℕ
  deriving DecidableEq, Repr

/-- `EventTable_s`. -/
structure EventTable (α : Type) where
  freeList : FreeList
  memory : EntryRef → MemorySlab α

section model

variable {α : Type}

def eventTableInit (ot : EventTable α) : Res (EventTable α) := do
  let freeList ← freelistInit ot.freeList
  .ok { ot with freeList := freeList }

/-- Memory for a table, fresh from `malloc`. -/
def eventTableMalloc (α : Type) : EventTable α where
  freeList := ⟨0, 0, 0, 0, 0, List.replicate (evtMax+1) none, List.length_replicate⟩
  memory _ := ⟨none, none⟩

def eventTableNew (α : Type) : Res (EventTable α) := eventTableInit (eventTableMalloc α)

def eventTableGetEntry (ot : EventTable α) : Res (EntryRef × EventTable α) := do
  let (ix, freeList) ← freelistGet ot.freeList
  if h : ix < evtMax+1 then
    let mp : EntryRef := ⟨ix, h⟩
    .ok (mp, ⟨freeList,
      Function.update ot.memory mp { ot.memory mp with myIndex := some ix }⟩)
  else .error .outOfBounds

def eventTableReleaseEntry (ot : EventTable α) (p : EntryRef) : Res (EventTable α) :=
  match (ot.memory p).myIndex with
  | none => .error .indeterminate
  | some ix => do
    let freeList ← freelistAdd ot.freeList ix
    .ok { ot with freeList := freeList }

def eventTableNumberInUse (et : EventTable α) : ℕ :=
  et.freeList.maxEntries - freelistSize et.freeList

def eventTableHasOutstandingEvents (et : EventTable α) : Bool := !freelistIsFull et.freeList

/-- The owner of an entry writes to it. -/
def EventTable.store (et : EventTable α) (p : EntryRef) (event : α) : EventTable α :=
  { et with memory := Function.update et.memory p { et.memory p with event := some event } }

end model

section freeList

/-- A free list that holds `xs`, oldest first. -/
structure FreeList.Holds (fl : FreeList) (xs : List ℕ) : Prop where
  maxEntries : fl.maxEntries = evtMax
  moduloMax : fl.moduloMax = evtMax+1
  count : fl.count = xs.length
  fits : xs.length ≤ evtMax
  wrix : fl.wrix = (fl.rdix+xs.length)%(evtMax+1)
  rdix : fl.rdix < evtMax+1
  ring : RingHolds fl.buffer (evtMax+1) fl.rdix xs

variable {fl : FreeList} {xs : List ℕ}

theorem FreeList.Holds.isFull_iff (h : fl.Holds xs) :
    freelistIsFull fl = true ↔ xs.length = evtMax := by
  rw [freelistIsFull, decide_eq_true_eq, h.count, h.maxEntries]

theorem freelistAdd_holds (h : fl.Holds xs) (hroom : xs.length < evtMax) (element : ℕ) :
    ∃ fl', freelistAdd fl element = .ok fl' ∧ fl'.Holds (xs ++ [element]) := by
  have hfull : freelistIsFull fl = false := by
    rw [← Bool.not_eq_true, h.isFull_iff]
    exact hroom.ne
  have hin : fl.wrix < fl.buffer.length := by
    rw [h.wrix, fl.size]
    exact Nat.mod_lt _ (Nat.succ_pos _)
  refine ⟨{ fl with
      count := fl.count+1
      buffer := fl.buffer.set fl.wrix (some element)
      wrix := (fl.wrix+1)%fl.moduloMax
      size := List.length_set.trans fl.size }, ?_, h.maxEntries, h.moduloMax, ?_, ?_, ?_, h.rdix, ?_⟩
  · simp only [freelistAdd, hfull, Bool.not_false, cAssert_true, ok_bind, hin, if_true]
  · simp only [h.count, List.length_append, List.length_singleton]
  · rw [List.length_append, List.length_singleton]
    exact hroom
  · simp only [h.wrix, h.moduloMax, List.length_append, List.length_singleton, Nat.mod_add_mod,
      Nat.add_assoc]
  · simp only [h.wrix]
    exact h.ring.push (hroom.trans (Nat.lt_succ_self _)) fl.size.ge element

theorem freelistGet_holds {x : ℕ} (h : fl.Holds (x :: xs)) :
    ∃ fl', freelistGet fl = .ok (x, fl') ∧ fl'.Holds xs := by
  have hcount : fl.count = xs.length+1 := by rw [h.count, List.length_cons]
  have hempty : freelistIsEmpty fl = false := by
    rw [freelistIsEmpty, hcount]
    exact decide_eq_false (Nat.succ_ne_zero _)
  have hhead := h.ring.head
  rw [Nat.mod_eq_of_lt h.rdix] at hhead
  have hfits := h.fits
  rw [List.length_cons] at hfits
  refine ⟨{ fl with count := fl.count-1, rdix := (fl.rdix+1)%fl.moduloMax }, ?_, h.maxEntries,
    h.moduloMax, ?_, by omega, ?_, ?_, ?_⟩
  · simp only [freelistGet, hempty, Bool.not_false, cAssert_true, ok_bind,
      arrayRead_ok _ _ _ hhead]
  · simp only [hcount, Nat.add_sub_cancel]
  · simp only [h.wrix, h.moduloMax, List.length_cons, Nat.mod_add_mod]
    congr 1
    omega
  · simp only [h.moduloMax]
    exact Nat.mod_lt _ (Nat.succ_pos _)
  · simp only [h.moduloMax]
    exact ringHolds_mod.mpr h.ring.tail

/-- The loop of `freelist_init`. -/
theorem freelistAdd_foldlM (ys : List ℕ) (fl : FreeList) (xs : List ℕ) (h : fl.Holds xs)
    (hroom : xs.length+ys.length ≤ evtMax) :
    ∃ fl', ys.foldlM freelistAdd fl = .ok fl' ∧ fl'.Holds (xs ++ ys) := by
  induction ys generalizing fl xs with
  | nil => exact ⟨fl, rfl, by rwa [List.append_nil]⟩
  | cons y ys ih =>
    rw [List.length_cons] at hroom
    obtain ⟨fl₁, hadd, h₁⟩ := freelistAdd_holds h (by omega) y
    obtain ⟨fl₂, hrest, h₂⟩ := ih fl₁ (xs ++ [y]) h₁ (by simp; omega)
    refine ⟨fl₂, ?_, by rwa [List.append_assoc, List.singleton_append] at h₂⟩
    rw [List.foldlM_cons, hadd, ok_bind, hrest]

theorem freelistInit_holds (fl : FreeList) :
    ∃ fl', freelistInit fl = .ok fl' ∧ fl'.Holds (List.range evtMax) := by
  rw [← List.nil_append (List.range evtMax), freelistInit]
  refine freelistAdd_foldlM (List.range evtMax) _ [] ⟨rfl, rfl, rfl, Nat.zero_le _, ?_,
    Nat.succ_pos _, ringHolds_nil⟩ ?_
  · rw [List.length_nil, Nat.add_zero, Nat.zero_mod]
  · rw [List.length_nil, Nat.zero_add, List.length_range]

theorem FreeList.Holds.stored_eq (h : fl.Holds xs) : fl.stored = xs.map some := by
  refine List.ext_getElem ?_ fun i hi hi' => ?_
  · rw [FreeList.stored, List.length_map, List.length_range, h.count, List.length_map]
  · have hlt : i < xs.length := by rwa [List.length_map] at hi'
    simp only [FreeList.stored, List.getElem_map, List.getElem_range, h.moduloMax,
      List.getD_eq_getElem?_getD, h.ring i hlt, Option.getD_some, List.getElem?_eq_getElem hlt]

end freeList

/-- An event table, and the entries handed out and not released since. -/
structure EventTableWorld (α : Type) where
  table : EventTable α
  inUse : List EntryRef

inductive EventTableEvent (α : Type) where
  | getEntry
  | releaseEntry (p : EntryRef)
  | store (p : EntryRef) (event : α)

section world

variable {α : Type}

/-- An entry is written to and released by those who got it; `my_index` is not theirs. -/
def EventTableWorld.Enabled (w : EventTableWorld α) : EventTableEvent α → Prop
  | .getEntry => w.inUse.length < evtMax
  | .releaseEntry p | .store p _ => p ∈ w.inUse

def EventTableWorld.exec (w : EventTableWorld α) :
    EventTableEvent α → Res (EventTableWorld α)
  | .getEntry => do
    let (p, table) ← eventTableGetEntry w.table
    .ok ⟨table, p :: w.inUse⟩
  | .releaseEntry p => do
    let table ← eventTableReleaseEntry w.table p
    .ok ⟨table, w.inUse.erase p⟩
  | .store p event => .ok { w with table := w.table.store p event }

def eventTableMachine (α : Type) :
    Machine (EventTableWorld α) (EventTableEvent α) Fault :=
  ⟨EventTableWorld.Enabled, EventTableWorld.exec⟩

/-- What an allocator of slots promises: every slot below `EVT_MAX` is either free or in
use, and the calls that are permitted return. -/
structure EventTableWorld.Allocates (w : EventTableWorld α) : Prop where
  partition : ∃ free : List ℕ, w.table.freeList.stored = free.map some ∧ free.Nodup ∧
    (w.inUse.map Fin.val).Nodup ∧ free.Disjoint (w.inUse.map Fin.val) ∧
    ∀ i, i ∈ free ∨ i ∈ w.inUse.map Fin.val ↔ i < evtMax
  numberInUse : eventTableNumberInUse w.table = w.inUse.length
  outstanding : eventTableHasOutstandingEvents w.table = true ↔ 0 < w.inUse.length
  getEntry : w.inUse.length < evtMax →
    ∃ p table, eventTableGetEntry w.table = .ok (p, table) ∧ p ∉ w.inUse ∧ p.val < evtMax
  releaseEntry : ∀ p ∈ w.inUse, ∃ table, eventTableReleaseEntry w.table p = .ok table

/-- The free slots in the ring and the slots in use make up the table, and each slot in
use knows its index. -/
structure EventTable.Shares (et : EventTable α) (free : List ℕ) (inUse : List EntryRef) :
    Prop where
  holds : et.freeList.Holds free
  perm : (free ++ inUse.map Fin.val).Perm (List.range evtMax)
  index : ∀ p ∈ inUse, (et.memory p).myIndex = some p.val

variable {et : EventTable α} {free : List ℕ} {inUse : List EntryRef}

theorem EventTable.Shares.length (h : et.Shares free inUse) :
    free.length+inUse.length = evtMax := by
  have hlen := h.perm.length_eq
  rwa [List.length_append, List.length_map, List.length_range] at hlen

theorem EventTable.Shares.nodup (h : et.Shares free inUse) :
    (free ++ inUse.map Fin.val).Nodup :=
  h.perm.nodup_iff.mpr List.nodup_range

theorem EventTable.Shares.mem (h : et.Shares free inUse) (i : ℕ) :
    i ∈ free ∨ i ∈ inUse.map Fin.val ↔ i < evtMax := by
  rw [← List.mem_append, h.perm.mem_iff, List.mem_range]

theorem eventTableInit_shares (ot : EventTable α) :
    ∃ et, eventTableInit ot = .ok et ∧ et.Shares (List.range evtMax) [] := by
  obtain ⟨fl, hinit, hholds⟩ := freelistInit_holds ot.freeList
  refine ⟨{ ot with freeList := fl }, ?_, hholds, ?_, by simp⟩
  · rw [eventTableInit, hinit, ok_bind]
  · rw [List.map_nil, List.append_nil]

theorem eventTableGetEntry_shares {ix : ℕ} (h : et.Shares (ix :: free) inUse) :
    ∃ p et', eventTableGetEntry et = .ok (p, et') ∧ p.val = ix ∧ p ∉ inUse ∧ ix < evtMax ∧
      et'.Shares free (p :: inUse) ∧ ∀ q, (et'.memory q).event = (et.memory q).event := by
  obtain ⟨fl, hget, hholds⟩ := freelistGet_holds h.holds
  have hlt : ix < evtMax := (h.mem ix).mp (.inl List.mem_cons_self)
  have hbound : ix < evtMax+1 := hlt.trans (Nat.lt_succ_self _)
  have hfresh : (⟨ix, hbound⟩ : EntryRef) ∉ inUse := by
    intro hmem
    have hnodup := h.nodup
    rw [List.cons_append, List.nodup_cons] at hnodup
    exact hnodup.1 (List.mem_append_right _ (List.mem_map_of_mem hmem))
  refine ⟨⟨ix, hbound⟩, ⟨fl, Function.update et.memory ⟨ix, hbound⟩
      { et.memory ⟨ix, hbound⟩ with myIndex := some ix }⟩, ?_, rfl, hfresh, hlt,
    ⟨hholds, ?_, ?_⟩, fun q => ?_⟩
  · simp only [eventTableGetEntry, hget, ok_bind, hbound, dif_pos]
  · exact List.perm_middle.trans h.perm
  · intro q hq
    rcases List.mem_cons.mp hq with rfl | hq
    · simp only [Function.update_self]
    · have hne : q ≠ ⟨ix, hbound⟩ := fun he => hfresh (he ▸ hq)
      simp only [Function.update_of_ne hne]
      exact h.index q hq
  · by_cases hq : q = ⟨ix, hbound⟩
    · simp only [hq, Function.update_self]
    · simp only [Function.update_of_ne hq]

theorem eventTableReleaseEntry_shares {p : EntryRef} (h : et.Shares free inUse)
    (hp : p ∈ inUse) :
    ∃ et', eventTableReleaseEntry et p = .ok et' ∧
      et'.Shares (free ++ [p.val]) (inUse.erase p) ∧ et'.memory = et.memory := by
  have hroom : free.length < evtMax := by
    have hlen := h.length
    have hpos := List.length_pos_of_mem hp
    omega
  obtain ⟨fl, hadd, hholds⟩ := freelistAdd_holds h.holds hroom p.val
  refine ⟨{ et with freeList := fl }, ?_, ⟨hholds, ?_, ?_⟩, rfl⟩
  · simp only [eventTableReleaseEntry, h.index p hp, hadd, ok_bind]
  · rw [List.append_assoc, List.singleton_append, ← List.map_cons]
    exact (((List.perm_cons_erase hp).map Fin.val).symm.append_left free).trans h.perm
  · exact fun q hq => h.index q (List.mem_of_mem_erase hq)

theorem EventTable.Shares.store (h : et.Shares free inUse) (p : EntryRef) (event : α) :
    (et.store p event).Shares free inUse := by
  refine ⟨h.holds, h.perm, fun q hq => ?_⟩
  rw [← h.index q hq]
  by_cases hqp : q = p
  · simp only [EventTable.store, hqp, Function.update_self]
  · simp only [EventTable.store, Function.update_of_ne hqp]

theorem EventTable.Shares.numberInUse (h : et.Shares free inUse) :
    eventTableNumberInUse et = inUse.length := by
  have hlen := h.length
  rw [eventTableNumberInUse, freelistSize, h.holds.maxEntries, h.holds.count]
  omega

theorem EventTable.Shares.outstanding (h : et.Shares free inUse) :
    eventTableHasOutstandingEvents et = true ↔ 0 < inUse.length := by
  have hlen := h.length
  rw [eventTableHasOutstandingEvents, Bool.not_eq_true', ← Bool.not_eq_true, h.holds.isFull_iff]
  omega

/-- While an entry is free, the ring has a first element. -/
theorem EventTable.Shares.eq_cons (h : et.Shares free inUse) (hroom : inUse.length < evtMax) :
    ∃ ix free', free = ix :: free' := by
  have hlen := h.length
  exact List.exists_cons_of_length_pos (by omega)

theorem EventTableWorld.allocates_of_shares {w : EventTableWorld α}
    (h : w.table.Shares free w.inUse) : w.Allocates where
  partition := by
    obtain ⟨hfree, hinUse, hdisjoint⟩ := List.nodup_append'.mp h.nodup
    exact ⟨free, h.holds.stored_eq, hfree, hinUse, hdisjoint, h.mem⟩
  numberInUse := h.numberInUse
  outstanding := h.outstanding
  getEntry hroom := by
    obtain ⟨ix, free', rfl⟩ := h.eq_cons hroom
    obtain ⟨p, et', hget, rfl, hfresh, hlt, -, -⟩ := eventTableGetEntry_shares h
    exact ⟨p, et', hget, hfresh, hlt⟩
  releaseEntry p hp := by
    obtain ⟨et', hrelease, -⟩ := eventTableReleaseEntry_shares h hp
    exact ⟨et', hrelease⟩

def EventTableWorld.Sound (w : EventTableWorld α) : Prop :=
  ∃ free, w.table.Shares free w.inUse

theorem EventTableWorld.Sound.step {w : EventTableWorld α} (h : w.Sound)
    (e : EventTableEvent α) (he : w.Enabled e) : ∃ t, w.exec e = .ok t ∧ t.Sound := by
  obtain ⟨free, hshares⟩ := h
  cases e with
  | getEntry =>
    obtain ⟨ix, free', rfl⟩ := hshares.eq_cons he
    obtain ⟨p, et', hget, -, -, -, hshares', -⟩ := eventTableGetEntry_shares hshares
    refine ⟨⟨et', p :: w.inUse⟩, ?_, free', hshares'⟩
    simp only [EventTableWorld.exec, hget, ok_bind]
  | releaseEntry p =>
    obtain ⟨et', hrelease, hshares', -⟩ := eventTableReleaseEntry_shares hshares he
    refine ⟨⟨et', w.inUse.erase p⟩, ?_, _, hshares'⟩
    simp only [EventTableWorld.exec, hrelease, ok_bind]
  | store p event => exact ⟨_, rfl, free, hshares.store p event⟩

end world

/-- `event_table_init` returns, whatever was in the memory before, and after any sequence of
permitted calls the table is a correct allocator. -/
theorem eventTable_allocates {α : Type} (ot : EventTable α) :
    ∃ et, eventTableInit ot = .ok et ∧
      ∀ es w, (eventTableMachine α).Run ⟨et, []⟩ es w → w.Allocates := by
  obtain ⟨et, hinit, hshares⟩ := eventTableInit_shares ot
  refine ⟨et, hinit, fun es w hrun => ?_⟩
  have hsound : w.Sound :=
    hrun.keeps_of_total (fun w e hw he => hw.step e he) ⟨_, hshares⟩
  obtain ⟨free, hw⟩ := hsound
  exact EventTableWorld.allocates_of_shares hw

theorem eventTable_allocates_three :
    ∃ et w, eventTableNew Unit = .ok et ∧
      (eventTableMachine Unit).Run ⟨et, []⟩ [.getEntry, .getEntry, .releaseEntry 0] w ∧
      w.inUse = [1] ∧ w.Allocates := by
  obtain ⟨et, hnew, hlaw⟩ := eventTable_allocates (eventTableMalloc Unit)
  obtain ⟨et', hnew', h₀⟩ := eventTableInit_shares (eventTableMalloc Unit)
  obtain rfl := Except.ok.inj (hnew.symm.trans hnew')
  have hrange : List.range evtMax = 0 :: 1 :: List.range' 2 2046 := List.range_eq_range'
  rw [hrange] at h₀
  obtain ⟨p, et₁, hget₁, hp, -, -, h₁, -⟩ := eventTableGetEntry_shares h₀
  obtain ⟨q, et₂, hget₂, hq, -, -, h₂, -⟩ := eventTableGetEntry_shares h₁
  obtain rfl : p = 0 := Fin.ext hp
  obtain rfl : q = 1 := Fin.ext hq
  obtain ⟨et₃, hrelease, -⟩ := eventTableReleaseEntry_shares h₂ (p := 0) (by simp)
  have hx₁ : (eventTableMachine Unit).exec ⟨et, []⟩ .getEntry = .ok ⟨et₁, [0]⟩ := by
    simp only [eventTableMachine, EventTableWorld.exec, hget₁, ok_bind]
  have hx₂ : (eventTableMachine Unit).exec ⟨et₁, [0]⟩ .getEntry = .ok ⟨et₂, [1, 0]⟩ := by
    simp only [eventTableMachine, EventTableWorld.exec, hget₂, ok_bind]
  have hx₃ : (eventTableMachine Unit).exec ⟨et₂, [1, 0]⟩ (.releaseEntry 0) =
      .ok ⟨et₃, [1, 0].erase 0⟩ := by
    simp only [eventTableMachine, EventTableWorld.exec, hrelease, ok_bind]
  have hrun : (eventTableMachine Unit).Run ⟨et, []⟩ [.getEntry, .getEntry, .releaseEntry 0]
      ⟨et₃, [1, 0].erase 0⟩ :=
    .cons (show 0 < evtMax by decide) hx₁ (.cons (show 1 < evtMax by decide) hx₂
      (.cons (show (0 : EntryRef) ∈ [1, 0] by simp) hx₃ (.nil _)))
  exact ⟨et, _, hnew, hrun, by simp, hlaw _ _ hrun⟩

end CHttp
