import CHttp.EpollTable

/-! A registered stream: the operations that arm and disarm its two sides, and the handler
that runs its functions, which may arm and disarm either side themselves. -/
namespace CHttp

inductive StreamSide where
  | read
  | write
  deriving DecidableEq, Repr

def StreamSide.bit : StreamSide → BitVec 64
  | .read => epollIn
  | .write => epollOut

/-- The function of a side. -/
def EpollStream.cb (s : EpollStream) : StreamSide → Option ℕ
  | .read => s.readPostableCb
  | .write => s.writePostableCb

def EpollStream.arg (s : EpollStream) : StreamSide → Option ℕ
  | .read => s.readPostableArg
  | .write => s.writePostableArg

/-- What `handler` tests before it calls the function of a side. -/
def EpollStream.calls (s : EpollStream) (side : StreamSide) : Bool :=
  s.eventMask &&& side.bit ≠ 0 && (s.cb side).isSome

/-- The operations, with functions and arguments that are not NULL. -/
inductive StreamOp where
  | armBoth (readCb readArg writeCb writeArg : ℕ)
  | armRead (cb arg : ℕ)
  | armWrite (cb arg : ℕ)
  | disarmRead
  | disarmWrite
  deriving DecidableEq, Repr

def StreamOp.call : StreamOp → WatcherCall
  | .armBoth readCb readArg writeCb writeArg =>
    .streamArmBoth (some readCb) (some readArg) (some writeCb) (some writeArg)
  | .armRead cb arg => .streamArmRead (some cb) (some arg)
  | .armWrite cb arg => .streamArmWrite (some cb) (some arg)
  | .disarmRead => .streamDisarmRead
  | .disarmWrite => .streamDisarmWrite

/-- What is armed: for each side its function and argument, if it is. -/
abbrev Armed := StreamSide → Option (ℕ × ℕ)

/-- What an operation makes of a side; nothing, if it is about the other one. -/
def StreamOp.sets : StreamOp → StreamSide → Option (Option (ℕ × ℕ))
  | .armBoth readCb readArg _ _, .read => some (some (readCb, readArg))
  | .armBoth _ _ writeCb writeArg, .write => some (some (writeCb, writeArg))
  | .armRead cb arg, .read | .armWrite cb arg, .write => some (some (cb, arg))
  | .disarmRead, .read | .disarmWrite, .write => some none
  | .armRead _ _, .write | .armWrite _ _, .read => none
  | .disarmRead, .write | .disarmWrite, .read => none

/-- The stream that an operation makes of a stream. -/
def StreamOp.apply (s : EpollStream) : StreamOp → EpollStream
  | .armBoth readCb readArg writeCb writeArg =>
    s.armBoth (some readCb) (some readArg) (some writeCb) (some writeArg)
  | .armRead cb arg => s.armRead (some cb) (some arg)
  | .armWrite cb arg => s.armWrite (some cb) (some arg)
  | .disarmRead => s.disarmRead
  | .disarmWrite => s.disarmWrite

/-- A call that `handler` made. -/
structure HandlerCallback where
  side : StreamSide
  cb : Option ℕ
  arg : Option ℕ
  deriving DecidableEq, Repr

/-- Whether `handler` is running, and in which of its two calls. -/
inductive HandlerControl where
  | returned
  | calling (side : StreamSide)
  deriving DecidableEq, Repr

/-- The run loop, the stream, where `handler` is, and all calls that it has made. -/
structure ArmingWorld where
  rl : Epoll
  stream : EpollStream
  control : HandlerControl
  calls : List HandlerCallback

inductive ArmingEvent where
  | op (o : StreamOp)
  | handler
  | ret
  deriving DecidableEq, Repr

namespace ArmingWorld

def call (w : ArmingWorld) (side : StreamSide) : ArmingWorld :=
  { w with
    control := .calling side
    calls := w.calls ++ [⟨side, w.stream.cb side, w.stream.arg side⟩] }

/-- The second half of `handler`. The mask is read again, after the first call. -/
def handlerWrite (w : ArmingWorld) : ArmingWorld :=
  if w.stream.calls .write then w.call .write else { w with control := .returned }

def handler (w : ArmingWorld) : ArmingWorld :=
  if w.stream.calls .read then w.call .read else w.handlerWrite

/-- The function that `handler` called returns. -/
def ret (w : ArmingWorld) : ArmingWorld :=
  match w.control with
  | .calling .read => w.handlerWrite
  | .calling .write | .returned => { w with control := .returned }

/-- Operations come at any time, from inside the functions too. -/
def Enabled (w : ArmingWorld) : ArmingEvent → Prop
  | .op _ => True
  | .handler => w.control = .returned
  | .ret => w.control ≠ .returned

instance (w : ArmingWorld) (e : ArmingEvent) : Decidable (w.Enabled e) :=
  match e with
  | .op _ => inferInstanceAs (Decidable True)
  | .handler => inferInstanceAs (Decidable (w.control = .returned))
  | .ret => inferInstanceAs (Decidable (w.control ≠ .returned))

def exec (wref : Watcher) (w : ArmingWorld) : ArmingEvent → Res ArmingWorld
  | .op o => do
    let (rl, stream) ← o.call.perform w.rl wref w.stream
    .ok { w with rl := rl, stream := stream }
  | .handler => .ok w.handler
  | .ret => .ok w.ret

end ArmingWorld

def armingMachine (wref : Watcher) : Machine ArmingWorld ArmingEvent Fault :=
  ⟨ArmingWorld.Enabled, ArmingWorld.exec wref⟩

instance (wref : Watcher) (w : ArmingWorld) (e : ArmingEvent) :
    Decidable ((armingMachine wref).enabled w e) :=
  inferInstanceAs (Decidable (w.Enabled e))

/-- A stream that was just registered. -/
def armingWorldNew (rl : Epoll) : ArmingWorld := ⟨rl, .runloopStreamInit, .returned, []⟩

/-- What is armed after one more event. -/
def Armed.after (armed : Armed) (e : ArmingEvent) : Armed := fun side =>
  match e with
  | .op o => (o.sets side).getD (armed side)
  | .handler | .ret => armed side

/-- What a sequence of events leaves armed: what the last operation on a side armed it with. -/
def armedBy (es : List ArmingEvent) : Armed := es.foldl Armed.after fun _ => none

/-- The sides that `handler` still looks at. -/
def HandlerControl.ahead : HandlerControl → List StreamSide
  | .returned => [.read, .write]
  | .calling .read => [.write]
  | .calling .write => []

/-- The turn of `handler` that is due: the first armed side ahead is called, once and with what
it is armed with, or `handler` returns. -/
def Armed.turn (armed : Armed) : List StreamSide → HandlerControl × List HandlerCallback
  | [] => (.returned, [])
  | side :: sides =>
    match armed side with
    | some (cb, arg) => (.calling side, [⟨side, some cb, some arg⟩])
    | none => armed.turn sides

/-- The call of the function of a side, if it is armed. -/
def Armed.due (armed : Armed) (side : StreamSide) : List HandlerCallback :=
  match armed side with
  | some (cb, arg) => [⟨side, some cb, some arg⟩]
  | none => []

/-- A function that `handler` called: some operations, and the return. -/
def functionEvents (ops : List StreamOp) : List ArmingEvent := ops.map .op ++ [.ret]

/-- The function of a side, if it is armed. -/
def Armed.inside (armed : Armed) (side : StreamSide) (ops : List StreamOp) : List ArmingEvent :=
  if (armed side).isSome then functionEvents ops else []

section bits

variable (c m d : BitVec 64)

theorem or_and_of_disjoint (h : c &&& d = 0#64) : (c ||| m) &&& d = m &&& d := by
  rw [BitVec.and_or_distrib_right, h, BitVec.zero_or]

theorem or_and_of_covers (h : c &&& d = d) : (c ||| m) &&& d = d := by
  rw [BitVec.and_or_distrib_right, h]
  ext i hi
  simp

theorem and_not_and_self : (m &&& ~~~d) &&& d = 0#64 := by
  rw [BitVec.and_assoc, BitVec.and_comm _ d, BitVec.and_not_self]
  exact BitVec.and_zero

theorem and_not_and_of_disjoint (h : ~~~d &&& c = c) : (m &&& ~~~d) &&& c = m &&& c := by
  rw [BitVec.and_assoc, h]

end bits

/-- What an operation does to the mask, the function and the argument of a side. -/
theorem StreamOp.apply_side (o : StreamOp) (s : EpollStream) (side : StreamSide) :
    match o.sets side with
    | none => (o.apply s).eventMask &&& side.bit = s.eventMask &&& side.bit ∧
        (o.apply s).cb side = s.cb side ∧ (o.apply s).arg side = s.arg side
    | some (some (cb, arg)) => (o.apply s).eventMask &&& side.bit = side.bit ∧
        (o.apply s).cb side = some cb ∧ (o.apply s).arg side = some arg
    | some none => (o.apply s).eventMask &&& side.bit = 0#64 ∧ (o.apply s).cb side = none := by
  cases o with
  | armBoth =>
    cases side with
    | read => exact ⟨or_and_of_covers _ _ _ (by decide), rfl, rfl⟩
    | write => exact ⟨or_and_of_covers _ _ _ (by decide), rfl, rfl⟩
  | armRead =>
    cases side with
    | read => exact ⟨or_and_of_covers _ _ _ (by decide), rfl, rfl⟩
    | write => exact ⟨or_and_of_disjoint _ _ _ (by decide), rfl, rfl⟩
  | armWrite =>
    cases side with
    | read => exact ⟨or_and_of_disjoint _ _ _ (by decide), rfl, rfl⟩
    | write => exact ⟨or_and_of_covers _ _ _ (by decide), rfl, rfl⟩
  | disarmRead =>
    cases side with
    | read => exact ⟨and_not_and_self _ _, rfl⟩
    | write => exact ⟨and_not_and_of_disjoint _ _ _ (by decide), rfl, rfl⟩
  | disarmWrite =>
    have hmask : (StreamOp.disarmWrite.apply s).eventMask = s.eventMask &&& ~~~epollOut :=
      BitVec.and_comm _ _
    cases side with
    | read =>
      refine ⟨?_, rfl, rfl⟩
      rw [hmask]
      exact and_not_and_of_disjoint _ _ _ (by decide)
    | write =>
      refine ⟨?_, rfl⟩
      rw [hmask]
      exact and_not_and_self _ _

/-- The bits of an interest. -/
theorem StreamOp.apply_lt (o : StreamOp) (s : EpollStream) (h : s.eventMask.toNat < 2^32) :
    (o.apply s).eventMask.toNat < 2^32 := by
  have hor : ∀ c : BitVec 64, c.toNat < 2^32 → (c ||| s.eventMask).toNat < 2^32 := by
    intro c hc
    rw [BitVec.toNat_or]
    exact Nat.or_lt_two_pow hc h
  cases o with
  | armBoth | armRead | armWrite => exact hor _ (by decide)
  | disarmRead =>
    refine lt_of_le_of_lt ?_ h
    rw [StreamOp.apply, EpollStream.disarmRead, BitVec.toNat_and]
    exact Nat.and_le_left
  | disarmWrite =>
    refine lt_of_le_of_lt ?_ h
    rw [StreamOp.apply, EpollStream.disarmWrite, BitVec.toNat_and]
    exact Nat.and_le_right

/-- A mask of 32 bits reaches the kernel whole. -/
theorem setWidth_setWidth_of_lt (m : BitVec 64) (h : m.toNat < 2^32) :
    (m.setWidth 32).setWidth 64 = m := by
  apply BitVec.eq_of_toNat_eq
  rw [BitVec.toNat_setWidth, BitVec.toNat_setWidth, Nat.mod_eq_of_lt h, Nat.mod_eq_of_lt m.isLt]

/-- Every operation is carried out and ends in `runloop_reregister`. -/
theorem StreamOp.perform_eq (o : StreamOp) (rl : Epoll) (wref : Watcher) (s : EpollStream) :
    o.call.perform rl wref s = rl.reregisterStream wref (o.apply s) := by
  cases o <;> rfl

/-- The stream's descriptor is registered, with the stream as its watcher. -/
structure Epoll.Watches (rl : Epoll) (wref : Watcher) : Prop where
  kernel : wref.fd ∈ rl.kernel
  table : rl.table.entries[wref.fd]? = some (some wref)

theorem Epoll.Watches.reregister {rl : Epoll} {wref : Watcher} (h : rl.Watches wref)
    (interest : BitVec 32) :
    ∃ t, rl.runloopReregister wref.fd interest wref = .ok t ∧ t.Watches wref ∧
      t.kernel.lookup wref.fd = some ⟨interest, wref⟩ := by
  have hlookup := (fdTableLookup_eq_ok _ _ _).mpr h.table
  have hctl : runloopEpollCtl rl.kernel wref.fd (.mod ⟨interest, wref⟩) =
      .ok (rl.kernel.insert wref.fd ⟨interest, wref⟩) := by
    rw [runloopEpollCtl, epollCtl, if_pos h.kernel]
  refine ⟨⟨rl.kernel.insert wref.fd ⟨interest, wref⟩, rl.table⟩, ?_, ⟨?_, h.table⟩, ?_⟩
  · rw [Epoll.runloopReregister, hlookup, ok_bind, hctl, ok_bind, ok_bind, decide_eq_true rfl,
      cAssert_true, ok_bind]
  · exact Finmap.mem_insert.mpr (.inl rfl)
  · exact Finmap.lookup_insert _

theorem Epoll.runloopStreamRegister_watches {rl t : Epoll} {wref : Watcher}
    (h : rl.runloopStreamRegister wref = .ok t) :
    t.Watches wref ∧ t.kernel.lookup wref.fd = some ⟨0, wref⟩ := by
  obtain ⟨-, hfree, rfl⟩ := Epoll.runloopRegister_inv h
  obtain ⟨hlt, -⟩ := List.getElem?_eq_some_iff.mp hfree
  exact ⟨⟨Finmap.mem_insert.mpr (.inl rfl), List.getElem?_set_self hlt⟩, Finmap.lookup_insert _⟩

/-- One side of a stream is as it was armed or disarmed last. -/
structure EpollStream.Agrees (s : EpollStream) (side : StreamSide) (armed : Option (ℕ × ℕ)) :
    Prop where
  mask : s.eventMask &&& side.bit ≠ 0#64 ↔ armed ≠ none
  cb : s.cb side = armed.map Prod.fst
  arg : armed ≠ none → s.arg side = armed.map Prod.snd

theorem StreamSide.bit_ne_zero (side : StreamSide) : side.bit ≠ 0#64 := by
  cases side <;> decide

theorem EpollStream.runloopStreamInit_agrees (side : StreamSide) :
    EpollStream.runloopStreamInit.Agrees side none := by
  cases side with
  | read => exact ⟨by decide, rfl, fun h => absurd rfl h⟩
  | write => exact ⟨by decide, rfl, fun h => absurd rfl h⟩

section agrees

variable {s : EpollStream} {side : StreamSide}

theorem EpollStream.Agrees.calls_some {p : ℕ × ℕ} (h : s.Agrees side (some p)) :
    s.calls side = true ∧ s.cb side = some p.1 ∧ s.arg side = some p.2 := by
  refine ⟨?_, h.cb, h.arg (Option.some_ne_none p)⟩
  rw [EpollStream.calls, h.cb, Bool.and_eq_true]
  exact ⟨decide_eq_true (h.mask.mpr (Option.some_ne_none p)), rfl⟩

theorem EpollStream.Agrees.calls_none (h : s.Agrees side none) : ¬s.calls side = true := by
  rw [EpollStream.calls, h.cb, Option.map_none, Option.isSome_none, Bool.and_false]
  exact Bool.false_ne_true

theorem EpollStream.Agrees.apply {armed : Option (ℕ × ℕ)} (h : s.Agrees side armed) (o : StreamOp) :
    (o.apply s).Agrees side ((o.sets side).getD armed) := by
  have hside := o.apply_side s side
  match hsets : o.sets side with
  | none =>
    rw [hsets] at hside
    refine ⟨?_, hside.2.1.trans h.cb, fun ha => hside.2.2.trans (h.arg ha)⟩
    rw [hside.1]
    exact h.mask
  | some (some p) =>
    rw [hsets] at hside
    refine ⟨iff_of_true ?_ (Option.some_ne_none p), hside.2.1, fun _ => hside.2.2⟩
    rw [hside.1]
    exact side.bit_ne_zero
  | some none =>
    rw [hsets] at hside
    refine ⟨iff_of_false ?_ (fun ha => ha rfl), hside.2, fun ha => absurd rfl ha⟩
    rw [hside.1]
    exact fun hne => hne rfl

end agrees

/-- Mask, functions, history and the kernel agree. -/
structure ArmingWorld.Sound (wref : Watcher) (armed : Armed) (w : ArmingWorld) : Prop where
  watched : w.rl.Watches wref
  sides : ∀ side, w.stream.Agrees side (armed side)
  mask : w.stream.eventMask.toNat < 2^32
  interest : w.rl.kernel.lookup wref.fd = some ⟨w.stream.eventMask.setWidth 32, wref⟩

/-- `handler` took the turn that was due with these sides ahead. -/
structure ArmingWorld.Turns (w t : ArmingWorld) (armed : Armed) (ahead : List StreamSide) :
    Prop where
  rl : t.rl = w.rl
  stream : t.stream = w.stream
  control : t.control = (armed.turn ahead).1
  calls : t.calls = w.calls ++ (armed.turn ahead).2

section step

variable {wref : Watcher} {armed : Armed} {w t : ArmingWorld}

theorem ArmingWorld.Sound.of_turns {ahead : List StreamSide} (h : w.Sound wref armed)
    (ht : w.Turns t armed ahead) : t.Sound wref armed := by
  refine ⟨?_, ?_, ?_, ?_⟩
  · rw [ht.rl]
    exact h.watched
  · rw [ht.stream]
    exact h.sides
  · rw [ht.stream]
    exact h.mask
  · rw [ht.rl, ht.stream]
    exact h.interest

theorem ArmingWorld.Sound.op (h : w.Sound wref armed) (o : StreamOp) :
    ∃ t, w.exec wref (.op o) = .ok t ∧ t.Sound wref (armed.after (.op o)) ∧
      t.control = w.control ∧ t.calls = w.calls := by
  obtain ⟨rl, hrl, hwatched, hlookup⟩ :=
    h.watched.reregister ((o.apply w.stream).eventMask.setWidth 32)
  refine ⟨{ w with rl := rl, stream := o.apply w.stream }, ?_,
    ⟨hwatched, fun side => (h.sides side).apply o, o.apply_lt w.stream h.mask, hlookup⟩, rfl, rfl⟩
  simp only [ArmingWorld.exec, o.perform_eq, Epoll.reregisterStream, hrl, ok_bind]

theorem ArmingWorld.Sound.call {side : StreamSide} {sides : List StreamSide} {p : ℕ × ℕ}
    (h : w.Sound wref armed) (hp : armed side = some p) :
    w.Turns (w.call side) armed (side :: sides) := by
  obtain ⟨-, hcb, harg⟩ := (hp ▸ h.sides side).calls_some
  refine ⟨rfl, rfl, ?_, ?_⟩
  · rw [Armed.turn, hp]
    rfl
  · rw [Armed.turn, hp, ArmingWorld.call, hcb, harg]

theorem ArmingWorld.Sound.handlerWrite (h : w.Sound wref armed) :
    w.Turns w.handlerWrite armed [.write] := by
  have hwrite := h.sides .write
  rw [ArmingWorld.handlerWrite]
  cases hp : armed .write with
  | none =>
    rw [hp] at hwrite
    rw [if_neg hwrite.calls_none]
    exact ⟨rfl, rfl, by rw [Armed.turn, hp, Armed.turn], by
      rw [Armed.turn, hp, Armed.turn, List.append_nil]⟩
  | some p =>
    rw [hp] at hwrite
    rw [if_pos hwrite.calls_some.1]
    exact h.call hp

theorem ArmingWorld.Sound.handler (h : w.Sound wref armed) :
    w.Turns w.handler armed [.read, .write] := by
  have hread := h.sides .read
  rw [ArmingWorld.handler]
  cases hp : armed .read with
  | none =>
    rw [hp] at hread
    have hwrite := h.handlerWrite
    have hturn : armed.turn [.read, .write] = armed.turn [.write] := by rw [Armed.turn, hp]
    rw [if_neg hread.calls_none]
    exact ⟨hwrite.rl, hwrite.stream, by rw [hturn]; exact hwrite.control, by
      rw [hturn]; exact hwrite.calls⟩
  | some p =>
    rw [hp] at hread
    rw [if_pos hread.calls_some.1]
    exact h.call hp

/-- Both events of `handler` take the turn that is due. -/
theorem ArmingWorld.Sound.turn (h : w.Sound wref armed) {e : ArmingEvent}
    (he : e = .handler ∨ e = .ret) (henabled : w.Enabled e) :
    ∃ t, w.exec wref e = .ok t ∧ w.Turns t armed w.control.ahead := by
  rcases he with rfl | rfl
  · have hcontrol : w.control = .returned := henabled
    rw [hcontrol]
    exact ⟨w.handler, rfl, h.handler⟩
  · refine ⟨w.ret, rfl, ?_⟩
    rw [ArmingWorld.ret]
    match hcontrol : w.control with
    | .returned => exact absurd hcontrol henabled
    | .calling .read => exact h.handlerWrite
    | .calling .write => exact ⟨rfl, rfl, rfl, (List.append_nil _).symm⟩

theorem ArmingWorld.Sound.step (h : w.Sound wref armed) {e : ArmingEvent} (he : w.Enabled e) :
    ∃ t, w.exec wref e = .ok t ∧ t.Sound wref (armed.after e) := by
  cases e with
  | op o =>
    obtain ⟨t, hx, ht, -⟩ := h.op o
    exact ⟨t, hx, ht⟩
  | handler =>
    obtain ⟨t, hx, ht⟩ := h.turn (.inl rfl) he
    exact ⟨t, hx, h.of_turns ht⟩
  | ret =>
    obtain ⟨t, hx, ht⟩ := h.turn (.inr rfl) he
    exact ⟨t, hx, h.of_turns ht⟩

/-- Operations change neither where `handler` is nor what it called. -/
theorem ArmingWorld.Sound.ops (h : w.Sound wref armed) (ops : List StreamOp) :
    ∃ t, (armingMachine wref).Run w (ops.map .op) t ∧
      t.Sound wref ((ops.map ArmingEvent.op).foldl Armed.after armed) ∧
      t.control = w.control ∧ t.calls = w.calls := by
  induction ops generalizing w armed with
  | nil => exact ⟨w, .nil w, h, rfl, rfl⟩
  | cons o ops ih =>
    obtain ⟨t, hx, ht, hcontrol, hcalls⟩ := h.op o
    obtain ⟨u, hrun, hu, hcontrol', hcalls'⟩ := ih ht
    exact ⟨u, .cons trivial hx hrun, hu, hcontrol'.trans hcontrol, hcalls'.trans hcalls⟩

/-- From inside of a function on: operations, the return, and the turn after it. -/
theorem ArmingWorld.Sound.inside {side : StreamSide} (h : w.Sound wref armed)
    (hcontrol : w.control = .calling side) (ops : List StreamOp) :
    ∃ t, (armingMachine wref).Run w (functionEvents ops) t ∧
      t.Sound wref ((functionEvents ops).foldl Armed.after armed) ∧
      t.control = (((functionEvents ops).foldl Armed.after armed).turn
        (HandlerControl.calling side).ahead).1 ∧
      t.calls = w.calls ++ (((functionEvents ops).foldl Armed.after armed).turn
        (HandlerControl.calling side).ahead).2 := by
  obtain ⟨u, hrun, hu, hcontrol', hcalls⟩ := h.ops ops
  have hat : u.control = .calling side := hcontrol'.trans hcontrol
  have hret : u.Enabled .ret := by
    intro hreturned
    cases hreturned.symm.trans hat
  obtain ⟨t, hx, ht⟩ := hu.turn (.inr rfl) hret
  rw [hat] at ht
  rw [functionEvents, List.foldl_append]
  refine ⟨t, hrun.append (.cons hret hx (.nil t)), hu.of_turns ht, ht.control, ?_⟩
  rw [ht.calls, hcalls]
  rfl

/-- The function of the write side returns to a `handler` that is done. -/
theorem ArmingWorld.Sound.inside_write {calls : List HandlerCallback} (h : w.Sound wref armed)
    (hcontrol : w.control = (armed.turn [.write]).1)
    (hcalls : w.calls = calls ++ (armed.turn [.write]).2) (ops : List StreamOp) :
    ∃ t, (armingMachine wref).Run w (armed.inside .write ops) t ∧ t.control = .returned ∧
      t.calls = calls ++ armed.due .write := by
  rw [Armed.inside, Armed.due]
  cases hp : armed .write with
  | none =>
    rw [Armed.turn, hp] at hcontrol hcalls
    exact ⟨w, .nil w, hcontrol, hcalls⟩
  | some p =>
    rw [Armed.turn, hp] at hcontrol hcalls
    obtain ⟨t, hrun, -, hreturned, hmore⟩ := h.inside hcontrol ops
    refine ⟨t, hrun, hreturned, ?_⟩
    rw [hmore, hcalls]
    exact List.append_nil _

/-- A whole call of `handler`, with any operations inside of the functions. -/
theorem ArmingWorld.Sound.handled (h : w.Sound wref armed) (hcontrol : w.control = .returned)
    (ops ops' : List StreamOp) :
    ∃ t, (armingMachine wref).Run w (.handler :: (armed.inside .read ops ++
        ((armed.inside .read ops).foldl Armed.after armed).inside .write ops')) t ∧
      t.control = .returned ∧
      t.calls = w.calls ++ armed.due .read ++
        ((armed.inside .read ops).foldl Armed.after armed).due .write := by
  obtain ⟨u, hx, hu⟩ := h.turn (.inl rfl) hcontrol
  rw [hcontrol] at hu
  have hsound := h.of_turns hu
  rw [Armed.inside, Armed.due]
  cases hp : armed .read with
  | none =>
    have hturn : armed.turn (HandlerControl.returned).ahead = armed.turn [.write] := by
      rw [HandlerControl.ahead, Armed.turn, hp]
    obtain ⟨t, hrun, hreturned, hcalls⟩ := hsound.inside_write (hturn ▸ hu.control)
      (hturn ▸ hu.calls) ops'
    refine ⟨t, .cons hcontrol hx hrun, hreturned, ?_⟩
    rw [List.append_nil]
    exact hcalls
  | some p =>
    have hturn : armed.turn (HandlerControl.returned).ahead =
        (.calling .read, [⟨.read, some p.1, some p.2⟩]) := by
      rw [HandlerControl.ahead, Armed.turn, hp]
    obtain ⟨v, hrun, hv, hcontrol', hcalls'⟩ := hsound.inside (by rw [hu.control, hturn]) ops
    obtain ⟨t, hrun', hreturned, hcalls⟩ := hv.inside_write hcontrol' hcalls' ops'
    refine ⟨t, .cons hcontrol hx (hrun.append hrun'), hreturned, ?_⟩
    rw [hcalls, hu.calls, hturn]
    rfl

end step

/-- For what the history left armed: the mask has the bit of a side exactly if it is armed, and its
function and argument are those it was armed with; the kernel has the interest in the mask; an
operation on one side leaves the other alone, and calls nothing; every event goes through; each
event of `handler` takes the turn that is due; and a whole call of `handler` calls the read
function once if reading was armed when it was entered, and then the write function once if
writing is armed after that, whatever the functions do. -/
structure ArmingWorld.Lawful (wref : Watcher) (armed : Armed) (w : ArmingWorld) : Prop where
  sides : ∀ side, w.stream.Agrees side (armed side)
  interest : ∃ ev, w.rl.kernel.lookup wref.fd = some ev ∧ ev.events.setWidth 64 = w.stream.eventMask
  other : ∀ o t side, o.sets side = none → w.exec wref (.op o) = .ok t →
    t.stream.cb side = w.stream.cb side ∧ t.stream.arg side = w.stream.arg side ∧
      t.stream.eventMask &&& side.bit = w.stream.eventMask &&& side.bit
  quiet : ∀ o t, w.exec wref (.op o) = .ok t → t.control = w.control ∧ t.calls = w.calls
  goes : ∀ e, (armingMachine wref).enabled w e → ∃ t, (armingMachine wref).exec w e = .ok t
  turn : ∀ e, e = .handler ∨ e = .ret → w.Enabled e →
    ∃ t, w.exec wref e = .ok t ∧ w.Turns t armed w.control.ahead
  handled : w.control = .returned → ∀ ops ops', ∃ t,
    (armingMachine wref).Run w (.handler :: (armed.inside .read ops ++
      ((armed.inside .read ops).foldl Armed.after armed).inside .write ops')) t ∧
    t.control = .returned ∧
    t.calls = w.calls ++ armed.due .read ++
      ((armed.inside .read ops).foldl Armed.after armed).due .write

theorem ArmingWorld.exec_op_eq_ok {wref : Watcher} {w t : ArmingWorld} {o : StreamOp}
    (hx : w.exec wref (.op o) = .ok t) :
    t.stream = o.apply w.stream ∧ t.control = w.control ∧ t.calls = w.calls := by
  obtain ⟨⟨rl, stream⟩, hperform, hok⟩ := (bind_eq_ok _ _ _).mp hx
  rw [o.perform_eq] at hperform
  obtain ⟨_, -, hstream⟩ := (bind_eq_ok _ _ _).mp hperform
  obtain ⟨-, rfl⟩ := Prod.mk.inj (Except.ok.inj hstream)
  obtain rfl := Except.ok.inj hok
  exact ⟨rfl, rfl, rfl⟩

theorem ArmingWorld.Sound.lawful {wref : Watcher} {armed : Armed} {w : ArmingWorld}
    (h : w.Sound wref armed) : w.Lawful wref armed where
  sides := h.sides
  interest := ⟨_, h.interest, setWidth_setWidth_of_lt _ h.mask⟩
  other o t side hsets hx := by
    have hside := o.apply_side w.stream side
    rw [hsets] at hside
    rw [(ArmingWorld.exec_op_eq_ok hx).1]
    exact ⟨hside.2.1, hside.2.2, hside.1⟩
  quiet o t hx := (ArmingWorld.exec_op_eq_ok hx).2
  goes e he := by
    obtain ⟨t, hx, -⟩ := h.step he
    exact ⟨t, hx⟩
  turn e he henabled := h.turn he henabled
  handled hcontrol ops ops' := h.handled hcontrol ops ops'

/-- For every stream that was registered, whatever else is registered, and every sequence of
operations, outside of `handler` and inside the functions it calls. -/
theorem stream_arming_lawful (before rl : Epoll) (wref : Watcher)
    (hregister : before.runloopStreamRegister wref = .ok rl) (es : List ArmingEvent) (w : ArmingWorld)
    (h : (armingMachine wref).Run (armingWorldNew rl) es w) : w.Lawful wref (armedBy es) := by
  obtain ⟨hwatched, hlookup⟩ := Epoll.runloopStreamRegister_watches hregister
  have hnew : (armingWorldNew rl).Sound wref fun _ => none :=
    ⟨hwatched, EpollStream.runloopStreamInit_agrees, show (0#64).toNat < 2^32 by decide, hlookup⟩
  refine (h.models (R := fun armed w => ArmingWorld.Sound wref armed w) ?_ hnew).lawful
  intro armed w e t hw he hx
  obtain ⟨t', hx', ht⟩ := hw.step he
  obtain rfl := Except.ok.inj (hx.symm.trans hx')
  exact ht

/-- The read function disarms its side and arms the other one, whose function is called then; in
the next call of `handler` the read function, armed again, disarms both. -/
theorem stream_arming_write_called :
    ∃ rl w, epollInit.runloopStreamRegister ⟨64, 5⟩ = .ok rl ∧
      (armingMachine ⟨64, 5⟩).Run (armingWorldNew rl)
        [.op (.armRead 1 2), .handler, .op .disarmRead, .op (.armWrite 3 4), .ret,
          .op (.armRead 5 6), .ret, .handler, .op .disarmRead, .op .disarmWrite, .ret] w ∧
      w.calls = [⟨.read, some 1, some 2⟩, ⟨.write, some 3, some 4⟩, ⟨.read, some 5, some 6⟩] ∧
      w.control = .returned ∧
      w.Lawful ⟨64, 5⟩ (armedBy [.op (.armRead 1 2), .handler, .op .disarmRead, .op (.armWrite 3 4),
        .ret, .op (.armRead 5 6), .ret, .handler, .op .disarmRead, .op .disarmWrite, .ret]) := by
  obtain ⟨rl, hrl, w, hrun, hcalls, hcontrol⟩ :
      ∃ rl, epollInit.runloopStreamRegister ⟨64, 5⟩ = .ok rl ∧
      ∃ w, (armingMachine ⟨64, 5⟩).Run (armingWorldNew rl)
        [.op (.armRead 1 2), .handler, .op .disarmRead, .op (.armWrite 3 4), .ret,
          .op (.armRead 5 6), .ret, .handler, .op .disarmRead, .op .disarmWrite, .ret] w ∧
      w.calls = [⟨.read, some 1, some 2⟩, ⟨.write, some 3, some 4⟩, ⟨.read, some 5, some 6⟩] ∧
      w.control = .returned :=
    ⟨_, rfl, Machine.exists_run_of_replay _ (by decide +kernel)⟩
  exact ⟨rl, w, hrl, hrun, hcalls, hcontrol, stream_arming_lawful _ rl _ hrl _ w hrun⟩

end CHttp
