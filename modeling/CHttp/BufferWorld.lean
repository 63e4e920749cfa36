import CHttp.BufferHeapChain

/-! Chains and buffers of one program: who owns which buffer, and what a call on one chain
leaves alone. -/
namespace CHttp

/-- Memory, and the chains by number. A buffer that is in no chain is the caller's. -/
structure ChainWorld where
  heap : BufferHeap
  chains : ℕ → ChainObject

/-- A call on a chain with the addresses malloc returns during it, or a call on a buffer
that works on its own struct and block, such as `IOBuffer_data_add`. -/
inductive ChainEvent where
  | append (this : ℕ) (buf : List Cell) (place : Allocation)
  | appendCstr (this : ℕ) (s : Bytes) (place : Allocation)
  | appendIOBuffer (this iobuf : ℕ) (place : Allocation)
  | addBack (this iobuf : ℕ)
  | addFront (this iobuf : ℕ)
  | popFront (this : ℕ)
  | compact (this : ℕ) (place : Allocation)
  | appendBufferchain (this other : ℕ) (places : List Allocation)
  | stealBufferchain (this other : ℕ)
  | write (iobuf : ℕ) (call : IOBuffer → Res IOBuffer)

namespace ChainWorld

def set (w : ChainWorld) (heap : BufferHeap) (this : ℕ) (chain : ChainObject) : ChainWorld :=
  ⟨heap, Function.update w.chains this chain⟩

def exec (w : ChainWorld) : ChainEvent → Res ChainWorld
  | .append this buf place => do
    let (heap, chain) ← w.heap.chainAppend (w.chains this) buf place
    .ok (w.set heap this chain)
  | .appendCstr this s place => do
    let (heap, chain) ← w.heap.chainAppendCstr (w.chains this) s place
    .ok (w.set heap this chain)
  | .appendIOBuffer this iobuf place => do
    let (heap, chain) ← w.heap.chainAppendIOBuffer (w.chains this) iobuf place
    .ok (w.set heap this chain)
  | .addBack this iobuf => do
    let chain ← w.heap.chainAddBack (w.chains this) iobuf
    .ok (w.set w.heap this chain)
  | .addFront this iobuf => do
    let chain ← w.heap.chainAddFront (w.chains this) iobuf
    .ok (w.set w.heap this chain)
  | .popFront this => do
    let (_, chain) ← w.heap.chainPopFront (w.chains this)
    .ok (w.set w.heap this chain)
  | .compact this place => do
    let heap ← w.heap.chainCompact (w.chains this) place
    .ok { w with heap := heap }
  | .appendBufferchain this other places => do
    let (heap, chain) ← w.heap.chainAppendBufferchain (w.chains this) (w.chains other) places
    .ok (w.set heap this chain)
  | .stealBufferchain this other => do
    let (chain, left) ← w.heap.chainStealBufferchain (w.chains this) (w.chains other)
    .ok ((w.set w.heap other left).set w.heap this chain)
  | .write iobuf call => do
    let heap ← w.heap.modify iobuf call
    .ok { w with heap := heap }

/-- The buffer is in no chain. -/
def Loose (w : ChainWorld) (iobuf : ℕ) : Prop := ∀ i, iobuf ∉ (w.chains i).mChain

/-- Malloc returns fresh addresses, and a buffer is given to one chain at most. -/
def Permitted (w : ChainWorld) : ChainEvent → Prop
  | .append _ _ place | .appendCstr _ _ place | .appendIOBuffer _ _ place | .compact _ place =>
    w.heap.Fresh place
  | .addBack _ iobuf | .addFront _ iobuf => w.Loose iobuf
  | .popFront _ | .write _ _ => True
  | .appendBufferchain this other places =>
    this ≠ other ∧ w.heap.FreshAll places ∧ (w.chains other).mChain.length = places.length
  | .stealBufferchain this other => this ≠ other

/-- The chains that an event is about. A copied chain is only read. -/
def touches (w : ChainWorld) : ChainEvent → Set ℕ
  | .append this _ _ | .appendCstr this _ _ | .appendIOBuffer this _ _ | .addBack this _
  | .addFront this _ | .popFront this | .appendBufferchain this _ _ => {this}
  | .compact _ _ => ∅
  | .stealBufferchain this other => {this, other}
  | .write iobuf _ => {i | iobuf ∈ (w.chains i).mChain}

/-- Every block has one struct, and every struct is in one place of one chain at most. -/
structure Sound (w : ChainWorld) : Prop where
  owned : w.heap.Owned
  alive : ∀ i, ∀ a ∈ (w.chains i).mChain, (w.heap.objects a).isSome
  nodup : ∀ i, (w.chains i).mChain.Nodup
  apart : ∀ i j, i ≠ j → ∀ a ∈ (w.chains i).mChain, a ∉ (w.chains j).mChain

/-- A chain has the same buffers in two worlds, with the same in them. -/
structure Same (w w' : ChainWorld) (i : ℕ) : Prop where
  chain : w'.chains i = w.chains i
  buffers : ∀ a ∈ (w.chains i).mChain, w'.heap.load a = w.heap.load a

/-- Chains outside the set are not touched. -/
structure Evolves (w : ChainWorld) (s : Set ℕ) (w' : ChainWorld) : Prop where
  sound : w'.Sound
  same : ∀ i, i ∉ s → w.Same w' i

end ChainWorld

def chainMachine : Machine ChainWorld ChainEvent Fault where
  enabled w e := w.Permitted e
  exec := ChainWorld.exec

namespace ChainWorld

variable {w w' w'' : ChainWorld} {h : BufferHeap} {this i : ℕ} {chain : ChainObject} {s t : Set ℕ}

theorem Same.trans (h₁ : w.Same w' i) (h₂ : w'.Same w'' i) : w.Same w'' i where
  chain := h₂.chain.trans h₁.chain
  buffers a ha := (h₂.buffers a (h₁.chain ▸ ha)).trans (h₁.buffers a ha)

theorem Same.reads (hs : w.Same w' i) {v : BufferChain} (hr : (w.chains i).Reads w.heap v) :
    (w'.chains i).Reads w'.heap v := by
  rw [hs.chain]
  exact hr.congr hs.buffers

/-- What malloc returns is in no chain. -/
theorem Sound.loose_of_fresh (hw : w.Sound) {place : Allocation} (hfresh : w.heap.Fresh place) :
    w.Loose place.object := by
  intro i hmem
  have halive := hw.alive i _ hmem
  rw [hfresh.object] at halive
  cases halive

theorem set_chains_self : (w.set h this chain).chains this = chain := Function.update_self ..

theorem set_chains_of_ne (hne : i ≠ this) : (w.set h this chain).chains i = w.chains i :=
  Function.update_of_ne hne _ _

theorem Loose.set {a : ℕ} (hloose : w.Loose a) (ha : a ∉ chain.mChain) : (w.set h this chain).Loose a := by
  intro i
  by_cases hi : i = this
  · rwa [hi, set_chains_self]
  · rw [set_chains_of_ne hi]
    exact hloose i

/-- A change of memory that spares the buffers of all chains but one, which gets a new list
of buffers that are in no other. -/
theorem Sound.set (hw : w.Sound) (hc : w.heap.Changes s h)
    (hspares : ∀ i, i ≠ this → ∀ a ∈ (w.chains i).mChain, a ∉ s)
    (halive : ∀ a ∈ chain.mChain, (h.objects a).isSome) (hnodup : chain.mChain.Nodup)
    (hapart : ∀ i, i ≠ this → ∀ a ∈ (w.chains i).mChain, a ∉ chain.mChain) :
    w.Evolves {this} (w.set h this chain) := by
  refine ⟨⟨hc.owned, fun i => ?_, fun i => ?_, fun i j hij => ?_⟩, fun i hi => ?_⟩
  · by_cases hi : i = this
    · rw [hi, set_chains_self]
      exact halive
    · rw [set_chains_of_ne hi]
      exact fun a ha => hc.alive a (hw.alive i a ha)
  · by_cases hi : i = this
    · rw [hi, set_chains_self]
      exact hnodup
    · rw [set_chains_of_ne hi]
      exact hw.nodup i
  · by_cases hi : i = this
    · rw [hi] at hij ⊢
      rw [set_chains_self, set_chains_of_ne hij.symm]
      exact fun a ha hmem => hapart j hij.symm a hmem ha
    · rw [set_chains_of_ne hi]
      by_cases hj : j = this
      · rw [hj, set_chains_self]
        exact hapart i hi
      · rw [set_chains_of_ne hj]
        exact hw.apart i j hij
  · have hi : i ≠ this := hi
    exact ⟨set_chains_of_ne hi, fun a ha => hc.kept a (hspares i hi a ha) (hw.alive i a ha)⟩

/-- A change of memory, with the chains as they were. -/
theorem Sound.memory (hw : w.Sound) (hc : w.heap.Changes s h) (t : Set ℕ)
    (hspares : ∀ i, i ∉ t → ∀ a ∈ (w.chains i).mChain, a ∉ s) :
    w.Evolves t { w with heap := h } where
  sound :=
    { owned := hc.owned
      alive := fun i a ha => hc.alive a (hw.alive i a ha)
      nodup := hw.nodup
      apart := hw.apart }
  same i hi := ⟨rfl, fun a ha => hc.kept a (hspares i hi a ha) (hw.alive i a ha)⟩

/-- A list that is the old one with loose buffers behind it. -/
theorem Sound.extend (hw : w.Sound) (hc : w.heap.Changes s h) (news : List ℕ)
    (hspares : ∀ i, i ≠ this → ∀ a ∈ (w.chains i).mChain, a ∉ s)
    (hlist : chain.mChain = (w.chains this).mChain ++ news) (hloose : ∀ a ∈ news, w.Loose a)
    (hnodup : news.Nodup) (halive : ∀ a ∈ news, (h.objects a).isSome) :
    w.Evolves {this} (w.set h this chain) := by
  refine hw.set hc hspares (fun a ha => ?_) ?_ fun i hi a ha hmem => ?_
  · rw [hlist, List.mem_append] at ha
    rcases ha with ha | ha
    · exact hc.alive a (hw.alive this a ha)
    · exact halive a ha
  · rw [hlist, List.nodup_append]
    refine ⟨hw.nodup this, hnodup, fun a ha b hb hab => ?_⟩
    exact hloose b hb this (hab ▸ ha)
  · rw [hlist, List.mem_append] at hmem
    rcases hmem with hmem | hmem
    · exact hw.apart i this hi a ha hmem
    · exact hloose a hmem i ha

/-- An append, whichever way its data was given. -/
theorem Sound.append (hw : w.Sound) {place : Allocation} (hfresh : w.heap.Fresh place)
    {buf : List Cell} (hx : w.heap.chainAppend (w.chains this) buf place = .ok (h, chain)) :
    w.Evolves {this} (w.set h this chain) := by
  obtain ⟨hc, hlist⟩ := BufferHeap.chainAppend_changes hw.owned hfresh hx
  have hspares : ∀ i, i ≠ this → ∀ a ∈ (w.chains i).mChain,
      a ∉ ({a | a ∈ (w.chains this).mChain} ∪ {place.object} : Set ℕ) := by
    rintro i hi a ha (hmem | hat)
    · exact hw.apart i this hi a ha hmem
    · exact hw.loose_of_fresh hfresh i (Set.mem_singleton_iff.mp hat ▸ ha)
  rcases hlist with hlist | ⟨hlist, halive⟩
  · refine hw.extend hc [] hspares (by rw [hlist, List.append_nil]) ?_ List.nodup_nil ?_
    · exact fun a ha => absurd ha List.not_mem_nil
    · exact fun a ha => absurd ha List.not_mem_nil
  · refine hw.extend hc [place.object] hspares hlist ?_ (List.nodup_singleton _) ?_
    · exact fun a ha => List.mem_singleton.mp ha ▸ hw.loose_of_fresh hfresh
    · exact fun a ha => List.mem_singleton.mp ha ▸ halive

/-- No buffer is written, and the chain gets buffers that it had or that were loose. -/
theorem Sound.relist (hw : w.Sound) (hsub : ∀ a ∈ chain.mChain, a ∈ (w.chains this).mChain ∨ w.Loose a)
    (halive : ∀ a ∈ chain.mChain, (w.heap.objects a).isSome) (hnodup : chain.mChain.Nodup) :
    w.Evolves {this} (w.set w.heap this chain) := by
  refine hw.set (.refl hw.owned ∅) (fun _ _ _ _ => Set.notMem_empty _) halive hnodup
    fun i hi a ha hmem => ?_
  rcases hsub a hmem with hown | hloose
  · exact hw.apart i this hi a ha hown
  · exact hloose i ha

theorem Sound.addBack (hw : w.Sound) {iobuf : ℕ} (hloose : w.Loose iobuf)
    (hx : w.heap.chainAddBack (w.chains this) iobuf = .ok chain) :
    w.Evolves {this} (w.set w.heap this chain) := by
  obtain ⟨iob, hload, hx⟩ := (bind_eq_ok _ _ _).mp hx
  obtain rfl := Except.ok.inj hx
  refine hw.extend (.refl hw.owned ∅) [iobuf] (fun _ _ _ _ => Set.notMem_empty _) rfl
    (fun a ha => ?_) (List.nodup_singleton iobuf) fun a ha => ?_
  · exact List.mem_singleton.mp ha ▸ hloose
  · exact List.mem_singleton.mp ha ▸ BufferHeap.isSome_of_load hload

theorem Sound.addFront (hw : w.Sound) {iobuf : ℕ} (hloose : w.Loose iobuf)
    (hx : w.heap.chainAddFront (w.chains this) iobuf = .ok chain) :
    w.Evolves {this} (w.set w.heap this chain) := by
  obtain ⟨iob, hload, hx⟩ := (bind_eq_ok _ _ _).mp hx
  obtain rfl := Except.ok.inj hx
  refine hw.relist (fun a ha => ?_) (fun a ha => ?_)
    (List.nodup_cons.mpr ⟨hloose this, hw.nodup this⟩)
  · rcases List.mem_cons.mp ha with rfl | ha
    · exact .inr hloose
    · exact .inl ha
  · rcases List.mem_cons.mp ha with rfl | ha
    · exact BufferHeap.isSome_of_load hload
    · exact hw.alive this a ha

/-- The copies are new buffers, so that no chain but this one has them. -/
theorem Sound.copy (hw : w.Sound) {other : ChainObject} {places : List Allocation}
    (hfresh : w.heap.FreshAll places) (hlen : other.mChain.length = places.length)
    (hx : w.heap.chainAppendBufferchain (w.chains this) other places = .ok (h, chain)) :
    w.Evolves {this} (w.set h this chain) := by
  obtain ⟨hc, hlist, halive⟩ := BufferHeap.chainAppendBufferchain_changes hw.owned hfresh hlen hx
  have hloose : ∀ a ∈ places.map Allocation.object, w.Loose a := by
    intro a ha
    obtain ⟨place, hplace, rfl⟩ := List.mem_map.mp ha
    exact hw.loose_of_fresh (hfresh.fresh place hplace)
  refine hw.extend hc _ (fun i _ a ha hmem => hloose a hmem i ha) hlist hloose hfresh.objects
    fun a ha => ?_
  obtain ⟨place, hplace, rfl⟩ := List.mem_map.mp ha
  exact halive place hplace

theorem Sound.steal (hw : w.Sound) {other : ℕ} {left : ChainObject} (hne : this ≠ other)
    (hthis : chain.mChain = (w.chains this).mChain ++ (w.chains other).mChain)
    (hother : left.mChain = []) :
    w.Evolves {this, other} ((w.set w.heap other left).set w.heap this chain) := by
  have hgone : w.Evolves {other} (w.set w.heap other left) := by
    refine hw.relist ?_ ?_ ?_ <;> rw [hother]
    · exact fun a ha => absurd ha List.not_mem_nil
    · exact fun a ha => absurd ha List.not_mem_nil
    · exact List.nodup_nil
  have hmid := hgone.sound
  have hlist : ((w.set w.heap other left).chains this).mChain = (w.chains this).mChain := by
    rw [set_chains_of_ne hne]
  have htaken : (w.set w.heap other left).Evolves {this}
      ((w.set w.heap other left).set w.heap this chain) := by
    refine hmid.extend (.refl hmid.owned ∅) (w.chains other).mChain
      (fun _ _ _ _ => Set.notMem_empty _) (by rw [hthis, hlist]) (fun a ha i hmem => ?_)
      (hw.nodup other) (hw.alive other)
    by_cases hi : i = other
    · rw [hi, set_chains_self, hother] at hmem
      cases hmem
    · rw [set_chains_of_ne hi] at hmem
      exact hw.apart i other hi a hmem ha
  refine ⟨htaken.sound, fun i hi => ?_⟩
  rw [Set.mem_insert_iff, Set.mem_singleton_iff, not_or] at hi
  exact (hgone.same i hi.2).trans (htaken.same i hi.1)

/-- Every event keeps the owners apart, and touches no chain that it is not about. -/
theorem Sound.step (hw : w.Sound) (e : ChainEvent) (he : w.Permitted e) (hx : w.exec e = .ok w') :
    w.Evolves (w.touches e) w' := by
  cases e with
  | append this buf place =>
    obtain ⟨⟨h, chain⟩, happ, hx⟩ := (bind_eq_ok _ _ _).mp hx
    obtain rfl := Except.ok.inj hx
    exact hw.append he happ
  | appendCstr this s place =>
    obtain ⟨⟨h, chain⟩, happ, hx⟩ := (bind_eq_ok _ _ _).mp hx
    obtain rfl := Except.ok.inj hx
    exact hw.append he happ
  | appendIOBuffer this iobuf place =>
    obtain ⟨⟨h, chain⟩, happ, hx⟩ := (bind_eq_ok _ _ _).mp hx
    obtain rfl := Except.ok.inj hx
    obtain ⟨iob, -, happ⟩ := (bind_eq_ok _ _ _).mp happ
    exact hw.append he happ
  | addBack this iobuf =>
    obtain ⟨chain, hadd, hx⟩ := (bind_eq_ok _ _ _).mp hx
    obtain rfl := Except.ok.inj hx
    exact hw.addBack he hadd
  | addFront this iobuf =>
    obtain ⟨chain, hadd, hx⟩ := (bind_eq_ok _ _ _).mp hx
    obtain rfl := Except.ok.inj hx
    exact hw.addFront he hadd
  | popFront this =>
    obtain ⟨⟨front, chain⟩, hpop, hx⟩ := (bind_eq_ok _ _ _).mp hx
    obtain rfl := Except.ok.inj hx
    have hlist := BufferHeap.chainPopFront_list hpop
    have hsub : ∀ a ∈ chain.mChain, a ∈ (w.chains this).mChain :=
      fun a ha => List.mem_of_mem_tail (hlist ▸ ha)
    exact hw.relist (fun a ha => .inl (hsub a ha)) (fun a ha => hw.alive this a (hsub a ha))
      (hlist ▸ (hw.nodup this).tail)
  | compact this place =>
    obtain ⟨h, hcompact, hx⟩ := (bind_eq_ok _ _ _).mp hx
    obtain rfl := Except.ok.inj hx
    refine hw.memory (BufferHeap.chainCompact_changes hw.owned he hcompact) ∅ fun i _ a ha hat => ?_
    exact hw.loose_of_fresh he i (Set.mem_singleton_iff.mp hat ▸ ha)
  | appendBufferchain this other places =>
    obtain ⟨⟨h, chain⟩, happ, hx⟩ := (bind_eq_ok _ _ _).mp hx
    obtain rfl := Except.ok.inj hx
    exact hw.copy he.2.1 he.2.2 happ
  | stealBufferchain this other =>
    obtain ⟨⟨chain, left⟩, hsteal, hx⟩ := (bind_eq_ok _ _ _).mp hx
    obtain rfl := Except.ok.inj hx
    obtain ⟨hthis, hother⟩ := BufferHeap.chainSteal_list hsteal
    exact hw.steal he hthis hother
  | write iobuf call =>
    obtain ⟨h, hmod, hx⟩ := (bind_eq_ok _ _ _).mp hx
    obtain rfl := Except.ok.inj hx
    refine hw.memory (BufferHeap.changes_modify hw.owned hmod) _ fun i hi a ha hat => hi ?_
    exact Set.mem_singleton_iff.mp hat ▸ ha

/-- A whole run that never touches a chain leaves it as it is. -/
theorem Sound.run (hw : w.Sound) {es : List ChainEvent}
    (hrun : (chainMachine.restrict fun w e => i ∉ w.touches e).Run w es w') :
    w'.Sound ∧ w.Same w' i := by
  refine hrun.keeps (I := fun w' => w'.Sound ∧ w.Same w' i) ?_ ⟨hw, rfl, fun _ _ => rfl⟩
  rintro w' e w'' ⟨hs, hsame⟩ ⟨he, hi⟩ hx
  have hstep := hs.step e he hx
  exact ⟨hstep.sound, hsame.trans (hstep.same i hi)⟩

end ChainWorld

end CHttp
