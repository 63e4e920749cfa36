import CHttp.BufferWorld

/-! What chains hold while data is appended to them and buffers are added at the back and
popped at the front: the bytes, in order, as they were given. -/
namespace CHttp

/-- The data of the buffer at an address. -/
def BufferHeap.dataAt (h : BufferHeap) (iobuf : ℕ) : List Cell :=
  match h.load iobuf with
  | .ok iob => iobufferData iob
  | .error _ => []

theorem BufferHeap.dataAt_eq {h : BufferHeap} {iobuf : ℕ} {iob : IOBuffer}
    (hload : h.load iobuf = .ok iob) : h.dataAt iobuf = iobufferData iob := by
  rw [BufferHeap.dataAt, hload]

/-- A world with the bytes each chain should hold. -/
structure ChainLedger where
  world : ChainWorld
  content : ℕ → List Cell

namespace ChainLedger

/-- New chains, and whatever buffers the caller has made before. -/
def start (heap : BufferHeap) : ChainLedger := ⟨⟨heap, fun _ => ⟨[], 0⟩⟩, fun _ => []⟩

/-- Appends go behind the bytes there are, and a pop takes as many as its buffer had. -/
def next (l : ChainLedger) : ChainEvent → ℕ → List Cell
  | .append this buf _ => Function.update l.content this (l.content this ++ buf)
  | .appendCstr this s _ => Function.update l.content this (l.content this ++ (cstr s).map some)
  | .appendIOBuffer this iobuf _ | .addBack this iobuf =>
    Function.update l.content this (l.content this ++ l.world.heap.dataAt iobuf)
  | .popFront this =>
    match (l.world.chains this).mChain with
    | [] => l.content
    | front :: _ =>
      Function.update l.content this ((l.content this).drop (l.world.heap.dataAt front).length)
  | _ => l.content

/-- Data is not empty and keeps the chain below 2^30 bytes. A buffer that is added is the
caller's, and nothing of it has been consumed. The caller may also compact a chain, and
make calls on buffers that are in no chain. -/
def Permitted (l : ChainLedger) : ChainEvent → Prop
  | .append this buf place =>
    l.world.heap.Fresh place ∧ buf ≠ [] ∧ (l.content this ++ buf).length < 2^30
  | .appendCstr this s place =>
    l.world.heap.Fresh place ∧ cstr s ≠ [] ∧ (l.content this ++ (cstr s).map some).length < 2^30
  | .appendIOBuffer this iobuf place =>
    l.world.heap.Fresh place ∧ ∃ iob, l.world.heap.load iobuf = .ok iob ∧ iobufferData iob ≠ [] ∧
      (l.content this ++ iobufferData iob).length < 2^30
  | .addBack this iobuf =>
    l.world.Loose iobuf ∧ ∃ iob, l.world.heap.load iobuf = .ok iob ∧ SegmentOk iob ∧
      (l.content this ++ iobufferData iob).length < 2^30
  | .popFront _ => True
  | .compact _ place => l.world.heap.Fresh place
  | .write iobuf call =>
    l.world.Loose iobuf ∧ ∃ iob iob', l.world.heap.load iobuf = .ok iob ∧ call iob = .ok iob'
  | .addFront _ _ | .appendBufferchain _ _ _ | .stealBufferchain _ _ => False

/-- The chain reads as its bytes, counts them, and compacts to a buffer with just these,
without a change to any chain. -/
structure Right (l : ChainLedger) (i : ℕ) : Prop where
  content : ∃ v, (l.world.chains i).Reads l.world.heap v ∧ bufferChainContent v = l.content i
  size : (l.world.chains i).mSize = (l.content i).length
  compact : ∀ place, l.world.heap.Fresh place → ∃ w iob,
    l.world.exec (.compact i place) = .ok w ∧ w.heap.load place.object = .ok iob ∧
      iobufferData iob = l.content i ∧ ∀ j, l.world.Same w j

end ChainLedger

def ledgerMachine : Machine ChainLedger ChainEvent Fault where
  enabled l e := l.Permitted e
  exec l e := do
    let world ← l.world.exec e
    .ok ⟨world, l.next e⟩

namespace ChainLedger

/-- What is known in every run. -/
structure Known (l : ChainLedger) : Prop where
  sound : l.world.Sound
  chains : ∀ i, ∃ v, (l.world.chains i).Reads l.world.heap v ∧ v.Holds (l.content i)
  short : ∀ i, (l.content i).length < 2^30

variable {l : ChainLedger} {w : ChainWorld} {this : ℕ}

theorem start_known {heap : BufferHeap} (hh : heap.Owned) : (start heap).Known where
  sound :=
    { owned := hh
      alive := fun _ _ ha => absurd ha List.not_mem_nil
      nodup := fun _ => List.nodup_nil
      apart := fun _ _ _ _ _ => List.not_mem_nil }
  chains _ := ⟨bufferChainNew, ⟨rfl, rfl⟩, bufferChainNew_holds⟩
  short _ := Nat.two_pow_pos 30

theorem Known.right (h : l.Known) (i : ℕ) : l.Right i := by
  obtain ⟨v, hr, hv⟩ := h.chains i
  have hshort := h.short i
  refine ⟨⟨v, hr, hv.content⟩, ?_, fun place hfresh => ?_⟩
  · rw [hr.size, hv.size, cInt_natCast _ (by omega)]
  · obtain ⟨iob, hcompact, hiob⟩ := bufferChainCompact_holds v (l.content i) hv (by omega)
    obtain ⟨heap, hx, hload⟩ := BufferHeap.chainCompact_ok hr h.sound.owned hfresh hcompact
    have hexec : l.world.exec (.compact i place) = .ok { l.world with heap := heap } := by
      simp only [ChainWorld.exec, hx, ok_bind]
    have hev := h.sound.step (.compact i place) hfresh hexec
    exact ⟨_, iob, hexec, hload, hiob.data, fun j => hev.same j (Set.notMem_empty j)⟩

/-- One chain was changed, and holds what it should. -/
theorem Known.update (h : l.Known) (hev : l.world.Evolves {this} w) {v : BufferChain} {d : List Cell}
    (hr : (w.chains this).Reads w.heap v) (hv : v.Holds d) (hd : d.length < 2^30) :
    (ChainLedger.mk w (Function.update l.content this d)).Known := by
  refine ⟨hev.sound, ?_, ?_⟩
  · refine (Function.forall_update_iff l.content
      fun i d => ∃ v, (w.chains i).Reads w.heap v ∧ v.Holds d).mpr ⟨⟨v, hr, hv⟩, fun i hi => ?_⟩
    obtain ⟨vi, hri, hvi⟩ := h.chains i
    exact ⟨vi, (hev.same i hi).reads hri, hvi⟩
  · exact (Function.forall_update_iff l.content fun _ d => d.length < 2^30).mpr
      ⟨hd, fun i _ => h.short i⟩

/-- No chain was changed. -/
theorem Known.unchanged (h : l.Known) (hev : l.world.Evolves ∅ w) :
    (ChainLedger.mk w l.content).Known := by
  refine ⟨hev.sound, fun i => ?_, h.short⟩
  obtain ⟨v, hr, hv⟩ := h.chains i
  exact ⟨v, (hev.same i (Set.notMem_empty i)).reads hr, hv⟩

theorem Known.append (h : l.Known) {buf : List Cell} {place : Allocation}
    (hfresh : l.world.heap.Fresh place) (hne : buf ≠ [])
    (hlen : (l.content this ++ buf).length < 2^30) :
    ∃ heap chain, l.world.heap.chainAppend (l.world.chains this) buf place = .ok (heap, chain) ∧
      (ChainLedger.mk (l.world.set heap this chain)
        (Function.update l.content this (l.content this ++ buf))).Known := by
  obtain ⟨v, hr, hv⟩ := h.chains this
  have hbuf : buf.length+101 < 2^31 := by
    rw [List.length_append] at hlen
    omega
  obtain ⟨v', happ, hv'⟩ := bufferChainAppend_holds v _ buf hv hne hbuf
  obtain ⟨heap, chain, hx, hr'⟩ :=
    BufferHeap.chainAppend_ok hr h.sound.owned (h.sound.nodup this) hfresh happ
  refine ⟨heap, chain, hx, h.update (h.sound.append hfresh hx) ?_ hv' hlen⟩
  rwa [ChainWorld.set_chains_self]

theorem Known.addBack (h : l.Known) {iobuf : ℕ} (he : l.Permitted (.addBack this iobuf)) :
    ∃ w, l.world.exec (.addBack this iobuf) = .ok w ∧
      (ChainLedger.mk w (l.next (.addBack this iobuf))).Known := by
  obtain ⟨hloose, iob, hload, hseg, hlen⟩ := he
  obtain ⟨v, hr, hv⟩ := h.chains this
  obtain ⟨chain, hx, hr'⟩ := BufferHeap.chainAddBack_ok hr hload
  have hexec : l.world.exec (.addBack this iobuf) = .ok (l.world.set l.world.heap this chain) := by
    simp only [ChainWorld.exec, hx, ok_bind]
  have hev := h.sound.step (.addBack this iobuf) hloose hexec
  refine ⟨_, hexec, ?_⟩
  rw [← BufferHeap.dataAt_eq hload] at hlen
  refine h.update hev (v := bufferChainAddBack v iob) ?_ ?_ hlen
  · rwa [ChainWorld.set_chains_self]
  · rw [BufferHeap.dataAt_eq hload]
    exact bufferChainAddBack_holds v _ iob hv hseg

theorem Known.popFront (h : l.Known) (this : ℕ) :
    ∃ w, l.world.exec (.popFront this) = .ok w ∧
      (ChainLedger.mk w (l.next (.popFront this))).Known := by
  obtain ⟨⟨segs, size⟩, hr, hv⟩ := h.chains this
  obtain ⟨front, chain, hx, hr'⟩ := BufferHeap.chainPopFront_ok hr
  have hexec : l.world.exec (.popFront this) = .ok (l.world.set l.world.heap this chain) := by
    simp only [ChainWorld.exec, hx, ok_bind]
  have hev := h.sound.step (.popFront this) trivial hexec
  have hreads : ((l.world.set l.world.heap this chain).chains this).Reads l.world.heap
      (bufferChainPopFront ⟨segs, size⟩).2 := by rwa [ChainWorld.set_chains_self]
  refine ⟨_, hexec, ?_⟩
  have hitems := hr.items
  rcases hlist : (l.world.chains this).mChain with _ | ⟨a, items⟩
  · rw [hlist] at hitems
    obtain rfl : segs = [] := List.map_eq_nil_iff.mp hitems.symm
    have hsame := h.update hev hreads hv (h.short this)
    rw [Function.update_eq_self] at hsame
    rwa [next, hlist]
  · rw [hlist] at hitems
    obtain ⟨seg, segs, rfl, hload, -⟩ := List.map_eq_cons_iff.mp hitems.symm
    have hshort := h.short this
    have hpopped := h.update hev hreads (bufferChainPopFront_holds seg segs size _ hv)
      (by rw [List.length_drop]; omega)
    rw [next, hlist]
    simpa only [BufferHeap.dataAt_eq hload.symm] using hpopped

theorem exec_eq {e : ChainEvent} (hx : l.world.exec e = .ok w) :
    ledgerMachine.exec l e = .ok ⟨w, l.next e⟩ := by
  simp only [ledgerMachine, hx, ok_bind]

/-- Every permitted event can be performed, and leaves every chain with what it should hold. -/
theorem Known.step (h : l.Known) (e : ChainEvent) (he : l.Permitted e) :
    ∃ w, l.world.exec e = .ok w ∧ (ChainLedger.mk w (l.next e)).Known := by
  cases e with
  | append this buf place =>
    obtain ⟨hfresh, hne, hlen⟩ := he
    obtain ⟨heap, chain, hx, hknown⟩ := h.append hfresh hne hlen
    exact ⟨l.world.set heap this chain, by simp only [ChainWorld.exec, hx, ok_bind], hknown⟩
  | appendCstr this s place =>
    obtain ⟨hfresh, hne, hlen⟩ := he
    obtain ⟨heap, chain, hx, hknown⟩ := h.append hfresh (by simpa using hne) hlen
    exact ⟨l.world.set heap this chain,
      by simp only [ChainWorld.exec, BufferHeap.chainAppendCstr, hx, ok_bind], hknown⟩
  | appendIOBuffer this iobuf place =>
    obtain ⟨hfresh, iob, hload, hne, hlen⟩ := he
    obtain ⟨heap, chain, hx, hknown⟩ := h.append hfresh hne hlen
    refine ⟨l.world.set heap this chain, ?_, ?_⟩
    · rw [ChainWorld.exec, BufferHeap.chainAppendIOBuffer, hload, ok_bind, hx, ok_bind]
    · rwa [next, BufferHeap.dataAt_eq hload]
  | addBack this iobuf => exact h.addBack he
  | addFront this iobuf => exact he.elim
  | popFront this => exact h.popFront this
  | compact this place =>
    obtain ⟨w, iob, hexec, -⟩ := (h.right this).compact place he
    exact ⟨w, hexec, h.unchanged (h.sound.step (.compact this place) he hexec)⟩
  | appendBufferchain this other places => exact he.elim
  | stealBufferchain this other => exact he.elim
  | write iobuf call =>
    obtain ⟨hloose, iob, iob', hload, hcall⟩ := he
    obtain ⟨heap, hx, -⟩ := BufferHeap.modify_ok hload hcall
    have hexec : l.world.exec (.write iobuf call) = .ok { l.world with heap := heap } := by
      simp only [ChainWorld.exec, hx, ok_bind]
    refine ⟨_, hexec, h.unchanged ?_⟩
    have hev := h.sound.step (.write iobuf call) trivial hexec
    exact ⟨hev.sound, fun i _ => hev.same i (hloose i)⟩

theorem Known.goes (h : l.Known) {e : ChainEvent} (he : l.Permitted e) :
    ledgerMachine.exec l e = .ok (ledgerMachine.next l e) ∧ (ledgerMachine.next l e).Known := by
  obtain ⟨w, hw, hknown⟩ := h.step e he
  rw [Machine.next_eq (exec_eq hw)]
  exact ⟨exec_eq hw, hknown⟩

theorem Known.run_cons (h : l.Known) {e : ChainEvent} (he : l.Permitted e) {es : List ChainEvent}
    {l' : ChainLedger} (hr : ledgerMachine.Run (ledgerMachine.next l e) es l') :
    ledgerMachine.Run l (e :: es) l' :=
  .cons he (h.goes he).1 hr

end ChainLedger

/-- In every run over new chains, every chain reads as the bytes that were given to it,
counts them and compacts to them, and every permitted call returns. -/
theorem bufferChain_content (heap : BufferHeap) (hheap : heap.Owned) (es : List ChainEvent)
    (l : ChainLedger) (hrun : ledgerMachine.Run (.start heap) es l) :
    (∀ i, l.Right i) ∧ ∀ e, l.Permitted e → ∃ l', ledgerMachine.exec l e = .ok l' := by
  have hknown : l.Known :=
    hrun.keeps_of_total (fun l e h he => ⟨_, h.goes he⟩) (ChainLedger.start_known hheap)
  exact ⟨hknown.right, fun e he => ⟨_, (hknown.goes he).1⟩⟩

/-- A full buffer is added and two bytes are appended behind it; the buffer is popped and the rest
compacted. -/
theorem bufferChain_content_popped :
    ∃ heap l, ledgerMachine.Run (.start heap) [.addBack 0 9, .append 0 [some 97] ⟨0, 0⟩,
        .append 0 [some 98] ⟨1, 1⟩, .popFront 0, .compact 0 ⟨2, 2⟩] l ∧
      heap.dataAt 9 = [some 120, some 121] ∧ l.content 0 = [some 97, some 98] ∧
      l.world.heap.dataAt 2 = [some 97, some 98] ∧ l.Right 0 := by
  let iob : IOBuffer := ⟨[some 120, some 121, none], 2, 0, 2⟩
  let heap : BufferHeap := BufferHeap.empty.put ⟨9, 9⟩ iob
  let l₀ := ChainLedger.start heap
  let l₁ := ledgerMachine.next l₀ (.addBack 0 9)
  let l₂ := ledgerMachine.next l₁ (.append 0 [some 97] ⟨0, 0⟩)
  let l₃ := ledgerMachine.next l₂ (.append 0 [some 98] ⟨1, 1⟩)
  let l₄ := ledgerMachine.next l₃ (.popFront 0)
  let l₅ := ledgerMachine.next l₄ (.compact 0 ⟨2, 2⟩)
  have howned : heap.Owned := BufferHeap.empty_owned.put
    (BufferHeap.Fresh.open ⟨rfl, rfl⟩ BufferHeap.empty_owned)
  have hiob : iob.Holds 2 (iobufferData iob) := ⟨rfl, rfl, rfl, rfl, by decide, rfl⟩
  have h₀ : l₀.Permitted (.addBack 0 9) :=
    ⟨fun _ => List.not_mem_nil, iob, rfl, ⟨by decide, 2, by decide, hiob⟩, by decide⟩
  have hk₁ : l₁.Known := ((ChainLedger.start_known howned).goes h₀).2
  have h₁ : l₁.Permitted (.append 0 [some 97] ⟨0, 0⟩) :=
    ⟨⟨by decide +kernel, by decide +kernel⟩, by decide, by decide +kernel⟩
  have hk₂ : l₂.Known := (hk₁.goes h₁).2
  have h₂ : l₂.Permitted (.append 0 [some 98] ⟨1, 1⟩) :=
    ⟨⟨by decide +kernel, by decide +kernel⟩, by decide, by decide +kernel⟩
  have hk₃ : l₃.Known := (hk₂.goes h₂).2
  have hk₄ : l₄.Known := (hk₃.goes (e := .popFront 0) trivial).2
  have h₄ : l₄.Permitted (.compact 0 ⟨2, 2⟩) := ⟨by decide +kernel, by decide +kernel⟩
  have hrun₄ : ledgerMachine.Run l₄ [.compact 0 ⟨2, 2⟩] l₅ := hk₄.run_cons h₄ (.nil l₅)
  have hrun₃ := hk₃.run_cons (e := .popFront 0) trivial hrun₄
  have hrun₂ := hk₂.run_cons h₂ hrun₃
  have hrun₁ := hk₁.run_cons h₁ hrun₂
  have hrun := (ChainLedger.start_known howned).run_cons h₀ hrun₁
  exact ⟨heap, l₅, hrun, by decide +kernel, by decide +kernel, by decide +kernel,
    (bufferChain_content heap howned _ _ hrun).1 0⟩

end CHttp
