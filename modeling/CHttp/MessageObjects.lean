import CHttp.HttpSerialize
import CHttp.ObjectHeap

/-! The objects a message is made of, and what the functions on messages allocate and free.
What they do to the contents is in `HttpMessage` and `HttpSerialize`; the memory of a pair, of
a `Cbuffer` and of an `IOBuffer` belongs to that object. -/
namespace CHttp

inductive ObjectKind where
  | message | pair | cbuffer | chain | iobuffer | list | node
  deriving DecidableEq, Repr

abbrev LibraryHeap := ObjectHeap ObjectKind
abbrev LibraryObject := Object ObjectKind

/-- The entries of a list, each with its node and its item. -/
abbrev Entries := List (LibraryObject × LibraryObject)

def Entries.objects (es : Entries) : List LibraryObject := es.flatMap fun e => [e.2, e.1]

structure ChainObjects where
  chain : LibraryObject
  list : LibraryObject
  segments : Entries

/-- In the order in which `BufferChain_free` frees them. -/
def ChainObjects.objects (c : ChainObjects) : List LibraryObject :=
  c.segments.objects ++ [c.list, c.chain]

structure MessageObjects where
  message : LibraryObject
  headers : LibraryObject
  pairs : Entries
  target : LibraryObject
  reason : LibraryObject
  body : Option ChainObjects

/-- In the order in which `http_message_free` frees them. The body is not among them. -/
def MessageObjects.freed (m : MessageObjects) : List LibraryObject :=
  m.pairs.objects ++ [m.headers, m.target, m.reason, m.message]

def MessageObjects.bodyObjects (m : MessageObjects) : List LibraryObject :=
  (m.body.map ChainObjects.objects).getD []

/-- All objects that can be reached from a message. -/
def MessageObjects.objects (m : MessageObjects) : Multiset LibraryObject :=
  ↑m.bodyObjects+↑m.freed

theorem MessageObjects.bodyObjects_eq_zero (m : MessageObjects) :
    (↑m.bodyObjects : Multiset LibraryObject) = 0 ↔ m.body = none := by
  rw [Multiset.coe_eq_zero, MessageObjects.bodyObjects]
  cases m.body with
  | none => exact iff_of_true rfl rfl
  | some c =>
    have hne : c.objects ≠ [] := List.append_ne_nil_of_right_ne_nil _ (List.cons_ne_nil _ _)
    exact iff_of_false hne (Option.some_ne_none c)

namespace Objects

/-- A new item and the node that `List_add_back` makes for it. -/
def addEntry (h : LibraryHeap) (kind : ObjectKind) (es : Entries) : LibraryHeap × Entries :=
  let (item, h) := h.alloc kind
  let (node, h) := h.alloc .node
  (h, es ++ [(node, item)])

def addEntries (h : LibraryHeap) (kind : ObjectKind) (es : Entries) : ℕ → LibraryHeap × Entries
  | 0 => (h, es)
  | n+1 =>
    let (h, es) := addEntry h kind es
    addEntries h kind es n

def httpMessageNew (h : LibraryHeap) : LibraryHeap × MessageObjects :=
  let (message, h) := h.alloc .message
  let (headers, h) := h.alloc .list
  let (target, h) := h.alloc .cbuffer
  let (reason, h) := h.alloc .cbuffer
  (h, ⟨message, headers, [], target, reason, none⟩)

def httpMessageFree (h : LibraryHeap) (m : MessageObjects) : Res LibraryHeap :=
  h.freeAll .outOfBounds m.freed

def httpMessageAddHeader (h : LibraryHeap) (m : MessageObjects) : LibraryHeap × MessageObjects :=
  let (h, pairs) := addEntry h .pair m.pairs
  (h, { m with pairs := pairs })

def bufferChainNew (h : LibraryHeap) : LibraryHeap × ChainObjects :=
  let (chain, h) := h.alloc .chain
  let (list, h) := h.alloc .list
  (h, ⟨chain, list, []⟩)

def bufferChainFree (h : LibraryHeap) (c : ChainObjects) : Res LibraryHeap :=
  h.freeAll .outOfBounds c.objects

/-- `n` segments join a chain. -/
def addSegments (h : LibraryHeap) (c : ChainObjects) (n : ℕ) : LibraryHeap × ChainObjects :=
  let (h, segments) := addEntries h .iobuffer c.segments n
  (h, { c with segments := segments })

/-- A chain of which both the contents and the objects are known. -/
structure Built where
  heap : LibraryHeap
  objects : ChainObjects
  contents : BufferChain

/-- A function that appends to a chain: what it adds to the list is newly allocated. -/
def Built.append (b : Built) (f : BufferChain → Res BufferChain) : Res Built := do
  let contents ← f b.contents
  let (h, c) := addSegments b.heap b.objects (contents.mChain.length-b.contents.mChain.length)
  .ok ⟨h, c, contents⟩

/-- `http_message_serialize`, which returns one `IOBuffer` and frees the rest. -/
def httpMessageSerialize (h : LibraryHeap) (this : HttpMessage) :
    Res (LibraryHeap × LibraryObject) := do
  let (h, c) := bufferChainNew h
  let firstLine ← httpMessageFirstLine this
  let b ← Built.append ⟨h, c, CHttp.bufferChainNew⟩ (bufferChainAppendCstr · firstLine)
  let b ← this.headers.foldlM (fun b item => b.append (appendHeader · item)) b
  let b ← b.append (bufferChainAppendCstr · crlf)
  let b ← b.append (appendBody · this.body)
  let _ ← bufferChainCompact b.contents
  let (result, h) := b.heap.alloc .iobuffer
  let h ← bufferChainFree h b.objects
  .ok (h, result)

variable {h : LibraryHeap} {s : Multiset LibraryObject}

theorem addEntry_holds {es : Entries} (hs : h.Holds (s+↑es.objects)) (kind : ObjectKind) :
    (addEntry h kind es).1.Holds (s+↑(addEntry h kind es).2.objects) := by
  refine ((hs.alloc kind).alloc .node).congr ?_
  rw [addEntry, Entries.objects, Entries.objects, List.flatMap_append, ← Multiset.coe_add,
    ← add_assoc, add_assoc]
  rfl

theorem addEntries_holds (kind : ObjectKind) (n : ℕ) {es : Entries}
    (hs : h.Holds (s+↑es.objects)) :
    (addEntries h kind es n).1.Holds (s+↑(addEntries h kind es n).2.objects) := by
  induction n generalizing h es with
  | zero => exact hs
  | succ n ih => exact ih (addEntry_holds hs kind)

/-- A new message has no pairs and no body. -/
theorem httpMessageNew_holds (hs : h.Holds s) :
    (httpMessageNew h).1.Holds (s+(httpMessageNew h).2.objects) ∧
      (httpMessageNew h).2.pairs = [] ∧ (httpMessageNew h).2.body = none := by
  have hsum (a b c d : LibraryObject) : s+{a}+{b}+{c}+{d} = s+(0+({b}+{c}+{d}+{a})) := by abel
  exact ⟨((((hs.alloc .message).alloc .list).alloc .cbuffer).alloc .cbuffer).congr (hsum _ _ _ _),
    rfl, rfl⟩

/-- `http_message_free` leaves the body behind. -/
theorem httpMessageFree_holds {m : MessageObjects} (hs : h.Holds (s+m.objects)) :
    ∃ h', httpMessageFree h m = .ok h' ∧ h'.Holds (s+↑m.bodyObjects) := by
  refine ObjectHeap.Holds.freeAll (hs.congr ?_) _
  rw [MessageObjects.objects, add_assoc]

theorem addPairs_holds {m : MessageObjects} (hs : h.Holds (s+m.objects)) (n : ℕ) :
    (addEntries h .pair m.pairs n).1.Holds
      (s+{ m with pairs := (addEntries h .pair m.pairs n).2 }.objects) := by
  have hsum (es : Entries) : s+{ m with pairs := es }.objects =
      s+↑m.bodyObjects+↑[m.headers, m.target, m.reason, m.message]+↑es.objects := by
    calc
      _ = s+(↑m.bodyObjects+(↑es.objects+↑[m.headers, m.target, m.reason, m.message])) := rfl
      _ = _ := by abel
  exact (addEntries_holds .pair n (hs.congr (hsum m.pairs))).congr (hsum _).symm

theorem bufferChainNew_holds (hs : h.Holds s) :
    (bufferChainNew h).1.Holds (s+↑(bufferChainNew h).2.objects) := by
  refine ((hs.alloc .chain).alloc .list).congr ?_
  rw [add_assoc, add_comm {_}]
  rfl

theorem addSegments_holds {c : ChainObjects} (hs : h.Holds (s+↑c.objects)) (n : ℕ) :
    (addSegments h c n).1.Holds (s+↑(addSegments h c n).2.objects) := by
  have hsum (es : Entries) : s+↑{ c with segments := es }.objects =
      s+↑[c.list, c.chain]+↑es.objects := by
    calc
      _ = s+(↑es.objects+↑[c.list, c.chain]) := rfl
      _ = _ := by abel
  exact (addEntries_holds .iobuffer n (hs.congr (hsum c.segments))).congr (hsum _).symm

/-- The chain of a message grows, or the message gets its first one. -/
theorem bodyObjects_holds {m : MessageObjects} {c : ChainObjects}
    (hs : h.Holds (s+↑m.freed+↑c.objects)) :
    h.Holds (s+{ m with body := some c }.objects) := by
  refine hs.congr ?_
  calc
    _ = s+(↑c.objects+↑m.freed) := by abel
    _ = _ := rfl

theorem Built.append_holds {b : Built} (hs : b.heap.Holds (s+↑b.objects.objects))
    (f : BufferChain → Res BufferChain) {contents : BufferChain}
    (hf : f b.contents = .ok contents) :
    ∃ b', b.append f = .ok b' ∧ b'.contents = contents ∧
      b'.heap.Holds (s+↑b'.objects.objects) := by
  let n := contents.mChain.length-b.contents.mChain.length
  refine ⟨⟨(addSegments b.heap b.objects n).1, (addSegments b.heap b.objects n).2, contents⟩, ?_,
    rfl, addSegments_holds hs n⟩
  rw [Built.append, hf, ok_bind]

theorem Built.appendHeaders_holds {items : List KVPair} {b : Built}
    (hs : b.heap.Holds (s+↑b.objects.objects)) {contents : BufferChain}
    (hf : items.foldlM appendHeader b.contents = .ok contents) :
    ∃ b', items.foldlM (fun b item => b.append (appendHeader · item)) b = .ok b' ∧
      b'.contents = contents ∧ b'.heap.Holds (s+↑b'.objects.objects) := by
  induction items generalizing b with
  | nil => exact ⟨b, rfl, Except.ok.inj hf, hs⟩
  | cons item items ih =>
    rw [List.foldlM_cons, bind_eq_ok] at hf
    obtain ⟨one, hone, hrest⟩ := hf
    obtain ⟨b', hb', hcontents, hs'⟩ := Built.append_holds hs (appendHeader · item) hone
    subst hcontents
    obtain ⟨b'', hb'', hall⟩ := ih hs' hrest
    refine ⟨b'', ?_, hall⟩
    rw [List.foldlM_cons, hb', ok_bind, hb'']

/-- Of all that `http_message_serialize` allocates only the result remains. -/
theorem httpMessageSerialize_holds (hs : h.Holds s) {this : HttpMessage} {iob : IOBuffer}
    (hser : CHttp.httpMessageSerialize this = .ok iob) :
    ∃ h' result, httpMessageSerialize h this = .ok (h', result) ∧ h'.Holds (s+{result}) := by
  simp only [CHttp.httpMessageSerialize, bind_eq_ok] at hser
  obtain ⟨line, hline, c1, h1, c2, h2, c3, h3, c4, h4, h5⟩ := hser
  obtain ⟨b1, hb1, rfl, hs1⟩ := Built.append_holds
    (b := ⟨(bufferChainNew h).1, (bufferChainNew h).2, CHttp.bufferChainNew⟩)
    (bufferChainNew_holds hs) (bufferChainAppendCstr · line) h1
  obtain ⟨b2, hb2, rfl, hs2⟩ := Built.appendHeaders_holds hs1 h2
  obtain ⟨b3, hb3, rfl, hs3⟩ := Built.append_holds hs2 (bufferChainAppendCstr · crlf) h3
  obtain ⟨b4, hb4, rfl, hs4⟩ := Built.append_holds hs3 (appendBody · this.body) h4
  have hresult := (hs4.alloc .iobuffer).congr (add_right_comm s _ _)
  obtain ⟨h', hfree, hs'⟩ := ObjectHeap.Holds.freeAll hresult Fault.outOfBounds
  refine ⟨h', _, ?_, hs'⟩
  unfold httpMessageSerialize
  dsimp only
  rw [hline, ok_bind, hb1, ok_bind, hb2, ok_bind, hb3, ok_bind, hb4, ok_bind, h5, ok_bind,
    bufferChainFree, hfree, ok_bind]

end Objects

end CHttp
