import CHttp.CMemory
import CHttp.Ring

/-! `Queue`, the bounded queue between threads, with its mutex and its two condition
variables. A thread that holds the mutex runs until it unlocks it or waits, so that
stretch is one step. -/
namespace CHttp

/-- Arithmetic of type `uint32_t`. -/
def u32 (n : ℕ) : ℕ := n%2^32

/-- `Queue_s`. -/
structure Queue (α : Type) where
  q : List (Option α)
  size : ℕ
  maxSize : ℕ
  next : ℕ
  first : ℕ
  full : Bool
  deriving DecidableEq, Repr

section model

variable {α : Type}

def queueNewWithCapacity (α : Type) (capacity : ℕ) : Queue α where
  q := List.replicate (u32 capacity) none
  size := 0
  maxSize := u32 capacity
  next := 0
  first := 0
  full := false

def isFull (q : Queue α) : Bool := q.first = q.next ∧ q.size > 0

def isEmpty (q : Queue α) : Bool := q.first = q.next ∧ q.size = 0

def advanceNextPointer (q : Queue α) : Res (Queue α) := do
  cAssert (!isFull q) "!is_full(q)"
  let q := { q with next := u32 (q.next+1)%q.maxSize }
  .ok { q with full := isFull q }

def advanceFirstPointer (q : Queue α) : Res (Queue α) := do
  cAssert (!isEmpty q) "!is_empty(q)"
  let q := { q with first := u32 (q.first+1)%q.maxSize }
  .ok { q with full := isFull q }

/-- How a stretch under the mutex ends: in `pthread_cond_wait`, or done, with a result
and perhaps a broadcast on the way. -/
inductive QueueOutcome (α β : Type) where
  | waits
  | done (result : β) (qref : Queue α) (broadcast : Bool)

/-- `Queue_remove` from the test of its loop on. -/
def queueRemove (qref : Queue α) : Res (QueueOutcome α α) :=
  if isEmpty qref then .ok .waits
  else do
    let r ← arrayRead qref.q qref.first
    let qref ← advanceFirstPointer qref
    let qref := { qref with size := u32 (qref.size+(2^32-1)) }
    .ok (.done r qref (qref.size < qref.maxSize))

/-- `Queue_add` from the test of its loop on. -/
def queueAdd (qref : Queue α) (sock : α) : Res (QueueOutcome α Unit) :=
  if qref.size = qref.maxSize then .ok .waits
  else do
    let q ← arrayWrite qref.q qref.next sock
    let qref ← advanceNextPointer { qref with q := q }
    let qref := { qref with size := u32 (qref.size+1) }
    -- only the first value of an empty queue is announced
    .ok (.done () qref (qref.size = 1))

/-- What a thread is doing with the queue. -/
inductive QueueThread (α : Type) where
  | idle
  | adding (sock : α)
  | removing
  | onNotFull (sock : α)
  | onNotEmpty
  deriving DecidableEq, Repr

/-- A waiting thread that has been woken takes the mutex again and repeats the test. -/
def QueueThread.woken : QueueThread α → QueueThread α
  | .onNotFull sock => .adding sock
  | .onNotEmpty => .removing
  | t => t

/-- `pthread_cond_broadcast` on `not_full_cv`. -/
def QueueThread.broadcastNotFull : QueueThread α → QueueThread α
  | .onNotFull sock => .adding sock
  | t => t

/-- `pthread_cond_broadcast` on `not_empty_cv`. -/
def QueueThread.broadcastNotEmpty : QueueThread α → QueueThread α
  | .onNotEmpty => .removing
  | t => t

/-- The queue, its threads, and the values added and removed so far, in the order of the
critical sections. -/
structure QueueWorld (τ α : Type) where
  queue : Queue α
  threads : τ → QueueThread α
  added : List α
  removed : List α

inductive QueueEvent (τ α : Type) where
  | callAdd (t : τ) (sock : α)
  | callRemove (t : τ)
  | enter (t : τ)
  | spurious (t : τ)

variable {τ : Type} [DecidableEq τ]

def QueueWorld.init (τ α : Type) (capacity : ℕ) : QueueWorld τ α :=
  ⟨queueNewWithCapacity α capacity, fun _ => .idle, [], []⟩

def QueueWorld.Enabled (w : QueueWorld τ α) : QueueEvent τ α → Prop
  | .callAdd t _ => w.threads t = .idle
  | .callRemove t => w.threads t = .idle
  | .enter t => w.threads t = .removing ∨ ∃ sock, w.threads t = .adding sock
  | .spurious t => w.threads t = .onNotEmpty ∨ ∃ sock, w.threads t = .onNotFull sock

/-- A thread sets its own state. -/
def QueueWorld.set (w : QueueWorld τ α) (t : τ) (s : QueueThread α) : QueueWorld τ α :=
  { w with threads := Function.update w.threads t s }

def QueueWorld.exec (w : QueueWorld τ α) : QueueEvent τ α → Res (QueueWorld τ α)
  | .callAdd t sock => .ok (w.set t (.adding sock))
  | .callRemove t => .ok (w.set t .removing)
  | .enter t =>
    match w.threads t with
    | .adding sock => do
      match ← queueAdd w.queue sock with
      | .waits => .ok (w.set t (.onNotFull sock))
      | .done _ queue broadcast =>
        let w := { w.set t .idle with queue := queue, added := w.added ++ [sock] }
        .ok (if broadcast then { w with threads := fun i => (w.threads i).broadcastNotEmpty } else w)
    | .removing => do
      match ← queueRemove w.queue with
      | .waits => .ok (w.set t .onNotEmpty)
      | .done r queue broadcast =>
        let w := { w.set t .idle with queue := queue, removed := w.removed ++ [r] }
        .ok (if broadcast then { w with threads := fun i => (w.threads i).broadcastNotFull } else w)
    | _ => .ok w
  | .spurious t => .ok (w.set t (w.threads t).woken)

def queueMachine (τ α : Type) [DecidableEq τ] : Machine (QueueWorld τ α) (QueueEvent τ α) Fault :=
  ⟨QueueWorld.Enabled, QueueWorld.exec⟩

/-- A queue of capacity `c` that holds `xs`. -/
structure Queue.Holds (q : Queue α) (c : ℕ) (xs : List α) : Prop where
  length : q.q.length = c
  maxSize : q.maxSize = c
  size : q.size = xs.length
  first : q.first < c
  next : q.next = (q.first+xs.length)%c
  fits : xs.length ≤ c
  ring : RingHolds q.q c q.first xs

section queue

variable {q : Queue α} {c : ℕ} {xs : List α}

theorem isEmpty_iff (h : q.Holds c xs) : isEmpty q = true ↔ xs = [] := by
  rw [isEmpty, decide_eq_true_eq, h.size, List.length_eq_zero_iff, and_iff_right_iff_imp]
  rintro rfl
  rw [h.next, List.length_nil, Nat.add_zero, Nat.mod_eq_of_lt h.first]

/-- With room left the two pointers meet only in an empty queue. -/
theorem isFull_eq_false (h : q.Holds c xs) (hroom : xs.length < c) : isFull q = false := by
  rw [isFull, decide_eq_false_iff_not]
  rintro ⟨hmeet, hsize⟩
  rw [h.size] at hsize
  have hne := ring_index_ne q.first hsize hroom
  rw [Nat.add_zero, Nat.mod_eq_of_lt h.first] at hne
  exact hne (hmeet.trans h.next)

theorem advanceNextPointer_ok (h : isFull q = false) :
    advanceNextPointer q = .ok { q with
      next := u32 (q.next+1)%q.maxSize
      full := isFull { q with next := u32 (q.next+1)%q.maxSize } } := by
  rw [advanceNextPointer, h, Bool.not_false, cAssert_true, ok_bind]

theorem advanceFirstPointer_ok (h : isEmpty q = false) :
    advanceFirstPointer q = .ok { q with
      first := u32 (q.first+1)%q.maxSize
      full := isFull { q with first := u32 (q.first+1)%q.maxSize } } := by
  rw [advanceFirstPointer, h, Bool.not_false, cAssert_true, ok_bind]

/-- A pointer below a capacity that fits `uint32_t` moves on without wrapping. -/
theorem u32_succ (n c : ℕ) (hn : n < c) (hc : c < 2^32) : u32 (n+1) = n+1 :=
  Nat.mod_eq_of_lt (by omega)

/-- A size that is not 0 goes down by one. -/
theorem u32_pred (n c : ℕ) (hn : n < c) (hc : c < 2^32) : u32 (n+1+(2^32-1)) = n := by
  rw [u32, Nat.add_assoc, show 1+(2^32-1) = 2^32 by decide, Nat.add_mod_right]
  exact Nat.mod_eq_of_lt (hn.trans hc)

theorem queueAdd_waits (h : q.Holds c xs) (hfull : xs.length = c) (sock : α) :
    queueAdd q sock = .ok .waits := by
  rw [queueAdd, if_pos (by rw [h.size, h.maxSize, hfull])]

theorem queueAdd_done (h : q.Holds c xs) (hc : c < 2^32) (hroom : xs.length < c) (sock : α) :
    ∃ q', queueAdd q sock = .ok (.done () q' (decide (xs = []))) ∧ q'.Holds c (xs ++ [sock]) := by
  have hpos : 0 < c := by omega
  have hsize : q.size ≠ q.maxSize := by rw [h.size, h.maxSize]; omega
  have hnext : q.next < c := by rw [h.next]; exact Nat.mod_lt _ hpos
  have hfull : isFull q = false := isFull_eq_false h hroom
  have hone : (xs.length+1 = 1) = (xs = []) := by
    rw [Nat.add_eq_right, List.length_eq_zero_iff]
  refine ⟨{ q with
      q := q.q.set q.next (some sock)
      next := u32 (q.next+1)%q.maxSize
      full := isFull { q with next := u32 (q.next+1)%q.maxSize }
      size := u32 (q.size+1) }, ?_,
    by rw [List.length_set, h.length], h.maxSize, ?_, h.first, ?_, ?_, ?_⟩
  · have hadvance := advanceNextPointer_ok (q := { q with q := q.q.set q.next (some sock) }) hfull
    rw [queueAdd, if_neg hsize, arrayWrite_ok _ _ _ (by rw [h.length]; exact hnext), ok_bind,
      hadvance, ok_bind]
    simp only [h.size, u32_succ _ _ hroom hc, hone]
    rfl
  · rw [h.size, u32_succ _ _ hroom hc, List.length_append, List.length_singleton]
  · rw [u32_succ _ _ hnext hc, h.maxSize, h.next, List.length_append, List.length_singleton,
      Nat.mod_add_mod, Nat.add_assoc]
  · rw [List.length_append, List.length_singleton]
    exact hroom
  · simp only [h.next]
    exact h.ring.push hroom h.length.ge sock

theorem queueRemove_waits (h : q.Holds c []) : queueRemove q = .ok .waits := by
  rw [queueRemove, if_pos ((isEmpty_iff h).mpr rfl)]

theorem queueRemove_done {x : α} (h : q.Holds c (x :: xs)) (hc : c < 2^32) :
    ∃ q', queueRemove q = .ok (.done x q' true) ∧ q'.Holds c xs := by
  have hf := h.fits
  rw [List.length_cons] at hf
  have hempty : isEmpty q = false :=
    Bool.eq_false_iff.mpr fun he => List.cons_ne_nil x xs ((isEmpty_iff h).mp he)
  have hread : arrayRead q.q q.first = .ok x := by
    have hhead := h.ring.head
    rw [Nat.mod_eq_of_lt h.first] at hhead
    exact arrayRead_ok _ _ _ hhead
  have hsize : u32 (q.size+(2^32-1)) = xs.length := by
    rw [h.size, List.length_cons]
    exact u32_pred _ c hf hc
  refine ⟨{ q with
      first := u32 (q.first+1)%q.maxSize
      full := isFull { q with first := u32 (q.first+1)%q.maxSize }
      size := u32 (q.size+(2^32-1)) }, ?_,
    h.length, h.maxSize, hsize, ?_, ?_, by omega, ?_⟩
  · have hless : decide (u32 (q.size+(2^32-1)) < q.maxSize) = true := by
      rw [hsize, h.maxSize]
      exact decide_eq_true hf
    rw [queueRemove, if_neg (by rw [hempty]; exact Bool.false_ne_true), hread, ok_bind,
      advanceFirstPointer_ok hempty, ok_bind]
    simp only [hless]
  · rw [h.maxSize]
    exact Nat.mod_lt _ (by omega)
  · show q.next = (u32 (q.first+1)%q.maxSize+xs.length)%c
    rw [u32_succ _ _ h.first hc, h.maxSize, h.next, List.length_cons, Nat.mod_add_mod,
      Nat.add_right_comm, Nat.add_assoc]
  · simp only [u32_succ _ _ h.first hc, h.maxSize]
    exact ringHolds_mod.mpr h.ring.tail

end queue

/-- The queue holds what was added and not yet removed, and a thread waits only for
what is not the case. -/
structure QueueWorld.Inv (w : QueueWorld τ α) (c : ℕ) (xs : List α) : Prop where
  holds : w.queue.Holds c xs
  fifo : w.added = w.removed ++ xs
  notEmpty : ∀ t, w.threads t = .onNotEmpty → xs = []
  notFull : ∀ t sock, w.threads t = .onNotFull sock → xs.length = c

section step

variable {w : QueueWorld τ α} {c : ℕ} {xs : List α}

theorem broadcastNotEmpty_ne (s : QueueThread α) : s.broadcastNotEmpty ≠ .onNotEmpty := by
  cases s <;> nofun

theorem broadcastNotFull_ne (s : QueueThread α) (sock : α) :
    s.broadcastNotFull ≠ .onNotFull sock := by
  cases s <;> nofun

/-- A thread may set itself waiting for what is not the case. -/
theorem QueueWorld.Inv.set (h : w.Inv c xs) (t : τ) (s : QueueThread α)
    (he : s = .onNotEmpty → xs = []) (hf : ∀ sock, s = .onNotFull sock → xs.length = c) :
    (w.set t s).Inv c xs := by
  refine ⟨h.holds, h.fifo, fun i hi => ?_, fun i sock hi => ?_⟩
  · by_cases hit : i = t
    · exact he (by simpa only [QueueWorld.set, hit, Function.update_self] using hi)
    · exact h.notEmpty i (by simpa only [QueueWorld.set, Function.update_of_ne hit] using hi)
  · by_cases hit : i = t
    · exact hf sock (by simpa only [QueueWorld.set, hit, Function.update_self] using hi)
    · exact h.notFull i sock (by simpa only [QueueWorld.set, Function.update_of_ne hit] using hi)

theorem queue_step_add (h : w.Inv c xs) (hc : c < 2^32) (t : τ) (sock : α)
    (ht : w.threads t = .adding sock) :
    ∃ w' ys, w.exec (.enter t) = .ok w' ∧ w'.Inv c ys := by
  rcases Nat.lt_or_eq_of_le h.holds.fits with hroom | hfull
  · obtain ⟨q', hadd, hq⟩ := queueAdd_done h.holds hc hroom sock
    have hidle := h.set t .idle nofun nofun
    have hfull : ∀ i v, (w.set t .idle).threads i ≠ .onNotFull v := by
      intro i v hi
      have := hidle.notFull i v hi
      omega
    refine ⟨_, xs ++ [sock], by simp only [QueueWorld.exec, ht, hadd, ok_bind]; rfl, ?_⟩
    by_cases hx : xs = []
    · simp only [hx, decide_true, if_true]
      refine ⟨by simpa only [hx] using hq, by simp [h.fifo, hx, QueueWorld.set], fun i hi => ?_, fun i v hi => ?_⟩
      · exact absurd hi (broadcastNotEmpty_ne _)
      · cases hs : (w.set t .idle).threads i with
        | onNotFull u => exact absurd hs (hfull i u)
        | idle | adding | removing | onNotEmpty => simp [hs, QueueThread.broadcastNotEmpty] at hi
    · simp only [hx, decide_false, Bool.false_eq_true, if_false]
      refine ⟨hq, by simp [h.fifo, QueueWorld.set], fun i hi => ?_, fun i v hi => ?_⟩
      · exact absurd (hidle.notEmpty i hi) hx
      · exact absurd hi (hfull i v)
  · refine ⟨_, xs, by simp only [QueueWorld.exec, ht, queueAdd_waits h.holds hfull, ok_bind]; rfl, ?_⟩
    exact h.set t _ nofun fun _ _ => hfull

theorem queue_step_remove (h : w.Inv c xs) (hc : c < 2^32) (t : τ)
    (ht : w.threads t = .removing) :
    ∃ w' ys, w.exec (.enter t) = .ok w' ∧ w'.Inv c ys := by
  cases xs with
  | nil =>
    refine ⟨_, [], by simp only [QueueWorld.exec, ht, queueRemove_waits h.holds, ok_bind]; rfl, ?_⟩
    exact h.set t _ (fun _ => rfl) nofun
  | cons x xs =>
    obtain ⟨q', hremove, hq⟩ := queueRemove_done h.holds hc
    have hidle := h.set t .idle nofun nofun
    refine ⟨_, xs, by simp only [QueueWorld.exec, ht, hremove, ok_bind, if_true]; rfl, hq,
      by simp [h.fifo, QueueWorld.set], fun i hi => ?_, fun i v hi => ?_⟩
    · cases hs : (w.set t .idle).threads i with
      | onNotEmpty => exact absurd (hidle.notEmpty i hs) (List.cons_ne_nil x xs)
      | idle | adding | removing | onNotFull => simp [hs, QueueThread.broadcastNotFull] at hi
    · exact absurd hi (broadcastNotFull_ne _ v)

/-- Every step goes through and keeps the invariant. -/
theorem queue_step (h : w.Inv c xs) (hc : c < 2^32) (e : QueueEvent τ α) (he : w.Enabled e) :
    ∃ w' ys, w.exec e = .ok w' ∧ w'.Inv c ys := by
  cases e with
  | callAdd t sock => exact ⟨_, xs, rfl, h.set t _ nofun nofun⟩
  | callRemove t => exact ⟨_, xs, rfl, h.set t _ nofun nofun⟩
  | enter t =>
    rcases he with ht | ⟨sock, ht⟩
    · exact queue_step_remove h hc t ht
    · exact queue_step_add h hc t sock ht
  | spurious t =>
    refine ⟨_, xs, rfl, h.set t _ ?_ ?_⟩
    · rcases he with ht | ⟨sock, ht⟩ <;> rw [ht] <;> nofun
    · rcases he with ht | ⟨sock, ht⟩ <;> rw [ht] <;> nofun

end step

/-- Bounded, first in first out, no wakeup lost, and no assertion fails. -/
structure QueueWorld.Sound (w : QueueWorld τ α) (c : ℕ) : Prop where
  size_le : w.queue.size ≤ c
  next : w.queue.next = (w.queue.first+w.queue.size)%c
  fifo : w.removed <+: w.added
  not_empty : ∀ t, w.threads t = .onNotEmpty → w.queue.size = 0
  not_full : ∀ t sock, w.threads t = .onNotFull sock → w.queue.size = c
  returns : ∀ e, w.Enabled e → ∃ w', w.exec e = .ok w'

end model

theorem queue_sound (τ α : Type) [DecidableEq τ] (c : ℕ) (hpos : 1 ≤ c) (hc : c < 2^32)
    (es : List (QueueEvent τ α)) (w : QueueWorld τ α)
    (h : (queueMachine τ α).Run (.init τ α c) es w) : w.Sound c := by
  have hinit : (QueueWorld.init τ α c).Inv c [] := by
    have hu : u32 c = c := Nat.mod_eq_of_lt hc
    refine ⟨⟨?_, hu, rfl, hpos, ?_, Nat.zero_le _, ringHolds_nil⟩, rfl, nofun, nofun⟩
    · exact List.length_replicate.trans hu
    · exact (Nat.zero_mod c).symm
  obtain ⟨xs, hinv⟩ : ∃ xs, w.Inv c xs := by
    refine h.keeps_of_total (I := fun w => ∃ xs, w.Inv c xs) ?_ ⟨[], hinit⟩
    rintro u e ⟨xs, hu⟩ he
    obtain ⟨v, ys, hx, hv⟩ := queue_step hu hc e he
    exact ⟨v, hx, ys, hv⟩
  have hsize := hinv.holds.size
  refine ⟨hsize ▸ hinv.holds.fits, hsize ▸ hinv.holds.next, ⟨xs, hinv.fifo.symm⟩, ?_, ?_, ?_⟩
  · intro t ht
    rw [hsize, hinv.notEmpty t ht, List.length_nil]
  · intro t sock ht
    rw [hsize, hinv.notFull t sock ht]
  · intro e he
    obtain ⟨w', ys, hx, -⟩ := queue_step hinv hc e he
    exact ⟨w', hx⟩

/-- A consumer waits on an empty queue of one entry until a producer has added. -/
theorem queue_sound_handover :
    ∃ w, (queueMachine Bool ℕ).Run (.init Bool ℕ 1) [.callRemove true, .enter true,
        .callAdd false 7, .enter false, .enter true] w ∧ w.removed = [7] ∧ w.Sound 1 := by
  have hrun : (queueMachine Bool ℕ).Run (.init Bool ℕ 1) [.callRemove true, .enter true,
      .callAdd false 7, .enter false, .enter true] _ :=
    .cons rfl rfl <| .cons (.inl rfl) rfl <| .cons rfl rfl <| .cons (.inr ⟨7, rfl⟩) rfl <|
      .cons (.inl rfl) rfl <| .nil _
  exact ⟨_, hrun, rfl, queue_sound Bool ℕ 1 le_rfl (by decide) _ _ hrun⟩

end CHttp
