import CHttp.KqueueHelpers

/-! The timer on kqueue. Its mode and its time are kept twice, in the event object and in
the kernel; an update changes them in the kernel only. -/
namespace CHttp

structure TimerSetting where
  interval : UInt64
  repeating : Bool
  deriving DecidableEq, Repr

/-- The `timer` of a `RunloopEvent_s`. `timerPostable` says whether the callback is set. -/
structure KqueueTimer where
  rlevent : KqueueEvent
  interval : UInt64
  repeating : Bool
  timerPostable : Bool
  deriving DecidableEq, Repr

def KqueueTimer.setting (timer : KqueueTimer) : TimerSetting := ⟨timer.interval, timer.repeating⟩

/-- A timer and the kernel's table. Beside them: the setting of the most recent register or
update, whether the last call was one to run the timer, and the callbacks since then. -/
structure KqueueTimerWorld where
  timer : KqueueTimer
  kqueue : Kqueue
  asked : Option TimerSetting
  running : Bool
  delivered : ℕ

namespace KqueueTimerWorld

def key (w : KqueueTimerWorld) : KeventKey := ⟨w.timer.rlevent.addr, .timer⟩

def runloopTimerInit (rlevent : KqueueEvent) (kqueue : Kqueue) : KqueueTimerWorld :=
  ⟨⟨rlevent, 0, false, false⟩, kqueue, none, false, 0⟩

/-- The helpers return 0 always, so the assertions on their results hold. -/
def runloopTimerRegister (w : KqueueTimerWorld) (intervalMs : UInt64) (repeating : Bool) :
    KqueueTimerWorld :=
  { w with
    timer := { w.timer with interval := intervalMs, repeating := repeating, timerPostable := true }
    kqueue := kqhTimerRegister w.timer.rlevent (!repeating) intervalMs w.kqueue }

def runloopTimerUpdate (w : KqueueTimerWorld) (intervalMs : UInt64) (repeating : Bool) :
    KqueueTimerWorld :=
  { w with kqueue := kqhTimerRegister w.timer.rlevent (!repeating) intervalMs w.kqueue }

def runloopTimerDisarm (w : KqueueTimerWorld) : KqueueTimerWorld :=
  { w with kqueue := kqhTimerPause w.timer.rlevent w.kqueue }

def runloopTimerRearm (w : KqueueTimerWorld) : KqueueTimerWorld :=
  { w with
    kqueue := kqhTimerRegister w.timer.rlevent (!w.timer.repeating) w.timer.interval w.kqueue }

def runloopTimerDeregister (w : KqueueTimerWorld) : KqueueTimerWorld :=
  { w with kqueue := kqhTimerCancel w.timer.rlevent w.kqueue }

def handler (w : KqueueTimerWorld) : Res KqueueTimerWorld := do
  -- the mode stored in the object decides, not the one in the kernel
  let w := if w.timer.repeating then w else w.runloopTimerDeregister
  cAssert w.timer.timerPostable "rlevent->timer.timer_postable != NULL"
  .ok { w with delivered := w.delivered+1 }

/-- The kernel drops a one-shot event as it reports it. `runloop_run` calls the handler of
the event that `udata` points to. -/
def expire (w : KqueueTimerWorld) : Res KqueueTimerWorld :=
  match w.kqueue w.key with
  | none => .error .nullPointer
  | some kn =>
    if kn.udata = some w.timer.rlevent.addr then
      -- so by the time the handler deregisters a one-shot timer it is gone already
      handler (if kn.oneshot then { w with kqueue := Function.update w.kqueue w.key none } else w)
    else .error .nullPointer

end KqueueTimerWorld

inductive KqueueTimerEvent where
  | register (intervalMs : UInt64) (repeating : Bool)
  | update (intervalMs : UInt64) (repeating : Bool)
  | disarm
  | rearm
  | deregister
  | expire
  deriving DecidableEq, Repr

namespace KqueueTimerWorld

def exec (w : KqueueTimerWorld) : KqueueTimerEvent → Res KqueueTimerWorld
  | .register intervalMs repeating => .ok { w.runloopTimerRegister intervalMs repeating with
      asked := some ⟨intervalMs, repeating⟩, running := true, delivered := 0 }
  | .update intervalMs repeating => .ok { w.runloopTimerUpdate intervalMs repeating with
      asked := some ⟨intervalMs, repeating⟩, running := true, delivered := 0 }
  | .disarm => .ok { w.runloopTimerDisarm with running := false }
  | .rearm => .ok { w.runloopTimerRearm with running := true, delivered := 0 }
  | .deregister => .ok { w.runloopTimerDeregister with running := false }
  | .expire => w.expire

/-- The kernel reports the timer: it is in the table, and enabled. -/
def Expires (w : KqueueTimerWorld) : Prop := ∃ kn ∈ w.kqueue w.key, kn.enabled = true

instance decidableExpires (w : KqueueTimerWorld) : Decidable w.Expires :=
  inferInstanceAs (Decidable (∃ kn ∈ w.kqueue w.key, kn.enabled = true))

/-- The functions may be called at any time. -/
def Enabled (w : KqueueTimerWorld) : KqueueTimerEvent → Prop
  | .expire => w.Expires
  | _ => True

/-- The kernel's event for a timer that runs with a setting. -/
def knote (w : KqueueTimerWorld) (s : TimerSetting) : Knote :=
  ⟨true, !s.repeating, s.interval, some w.timer.rlevent.addr⟩

end KqueueTimerWorld

def kqueueTimerMachine : Machine KqueueTimerWorld KqueueTimerEvent Fault :=
  ⟨KqueueTimerWorld.Enabled, KqueueTimerWorld.exec⟩

instance kqueueTimerMachine.decidableEnabled (w : KqueueTimerWorld) (e : KqueueTimerEvent) :
    Decidable (kqueueTimerMachine.enabled w e) :=
  match e with
  | .expire => inferInstanceAs (Decidable w.Expires)
  | .register _ _ | .update _ _ | .disarm | .rearm | .deregister =>
    inferInstanceAs (Decidable True)

/-- A timer that is to run is registered with the setting most recently asked for: until it
is stopped if it repeats, until its first expiry if it does not. One that does not repeat
calls back once at most. -/
structure KqueueTimerWorld.Lawful (w : KqueueTimerWorld) : Prop where
  armed : ∀ s, w.asked = some s → w.running = true → (s.repeating = true ∨ w.delivered = 0) →
    w.kqueue w.key = some (w.knote s)
  oneShot : ∀ s, w.asked = some s → s.repeating = false → w.delivered ≤ 1

/-- Nothing that can happen next fails. -/
def KqueueTimerWorld.Returns (w : KqueueTimerWorld) : Prop :=
  ∀ e, kqueueTimerMachine.enabled w e → ∃ t, kqueueTimerMachine.exec w e = .ok t

/-- The events that keep to the setting asked for: an update comes after a register, a rearm
while the object has that setting, and an expiry of a repeating timer while the object
repeats too. -/
def KqueueTimerEvent.Works (w : KqueueTimerWorld) : KqueueTimerEvent → Prop
  | .update _ _ => w.timer.timerPostable = true
  | .rearm => w.asked = some w.timer.setting
  | .expire => ∀ s ∈ w.asked, s.repeating = true → w.timer.repeating = true
  | .register _ _ | .disarm | .deregister => True

instance KqueueTimerEvent.decidableWorks (w : KqueueTimerWorld) (e : KqueueTimerEvent) :
    Decidable (e.Works w) :=
  match e with
  | .update _ _ => inferInstanceAs (Decidable (w.timer.timerPostable = true))
  | .rearm => inferInstanceAs (Decidable (w.asked = some w.timer.setting))
  | .expire => inferInstanceAs (Decidable
      (∀ s ∈ w.asked, s.repeating = true → w.timer.repeating = true))
  | .register _ _ | .disarm | .deregister => inferInstanceAs (Decidable True)

/-- An enabled event is there only while the timer runs, with the setting asked for, and if
it does not repeat, until it expires. The callback is set by the first register, which is
also the first to ask for a setting. -/
structure KqueueTimerWorld.Known (w : KqueueTimerWorld) : Prop where
  enabled : ∀ kn, w.kqueue w.key = some kn → kn.enabled = true →
    ∃ s, w.asked = some s ∧ kn = w.knote s ∧ (s.repeating = false → w.delivered = 0) ∧
      w.running = true
  postable : w.asked.isSome = w.timer.timerPostable

namespace KqueueTimerWorld

variable {w t : KqueueTimerWorld}

theorem register_knote (w : KqueueTimerWorld) (s : TimerSetting) :
    kqhTimerRegister w.timer.rlevent (!s.repeating) s.interval w.kqueue w.key =
      some (w.knote s) := by
  rw [kqhTimerRegister, key, knote]
  cases s.repeating with
  | false => exact kqhRegister_self _ _ _ _ evOneshot (.inr (.inr rfl))
  | true => exact kqhRegister_self _ _ _ _ 0 (.inl rfl)

theorem handler_eq (hpost : w.timer.timerPostable = true) :
    w.handler = .ok { w with
      kqueue := if w.timer.repeating then w.kqueue else kqhTimerCancel w.timer.rlevent w.kqueue
      delivered := w.delivered+1 } := by
  cases hrep : w.timer.repeating <;>
    simp only [handler, hrep, runloopTimerDeregister, hpost, cAssert_true, ok_bind, if_true,
      if_false, Bool.false_eq_true]

theorem handler_fails (hpost : w.timer.timerPostable = false) :
    w.handler = .error (.assertion "rlevent->timer.timer_postable != NULL") := by
  cases hrep : w.timer.repeating <;>
    simp only [handler, hrep, runloopTimerDeregister, hpost, cAssert_false, error_bind, if_true,
      if_false, Bool.false_eq_true]

theorem expire_eq_handler {s : TimerSetting} (h : w.kqueue w.key = some (w.knote s)) :
    w.expire = handler { w with
      kqueue := if s.repeating then w.kqueue else Function.update w.kqueue w.key none } := by
  cases hrep : s.repeating <;>
    simp only [expire, h, knote, hrep, if_true, if_false, Bool.not_true, Bool.not_false,
      Bool.false_eq_true]

/-- What an expiry does that the kernel reports for a timer with a callback. -/
theorem expire_eq {s : TimerSetting} (h : w.kqueue w.key = some (w.knote s))
    (hpost : w.timer.timerPostable = true) :
    ∃ t, w.expire = .ok t ∧ t.timer = w.timer ∧ t.asked = w.asked ∧ t.running = w.running ∧
      t.delivered = w.delivered+1 ∧
      t.kqueue w.key = if s.repeating && w.timer.repeating then some (w.knote s) else none := by
  have hcancel : ∀ kq, kqhTimerCancel w.timer.rlevent kq w.key = none :=
    fun kq => kqhCancel_self kq w.key
  refine ⟨_, (expire_eq_handler h).trans (handler_eq hpost), rfl, rfl, rfl, rfl, ?_⟩
  cases hw : w.timer.repeating with
  | false =>
    simp only [Bool.and_false, Bool.false_eq_true, if_false]
    exact hcancel _
  | true =>
    simp only [Bool.and_true, if_true]
    split_ifs
    · exact h
    · exact Function.update_self _ _ _

theorem Known.returns (h : w.Known) : w.Returns := by
  intro e he
  cases e with
  | expire =>
    obtain ⟨kn, hkn, hen⟩ := he
    obtain ⟨s, hs, rfl, -⟩ := h.enabled kn hkn hen
    obtain ⟨t, ht, -⟩ := expire_eq hkn (by rw [← h.postable, hs]; rfl)
    exact ⟨t, ht⟩
  | register => exact ⟨_, rfl⟩
  | update => exact ⟨_, rfl⟩
  | disarm => exact ⟨_, rfl⟩
  | rearm => exact ⟨_, rfl⟩
  | deregister => exact ⟨_, rfl⟩

/-- An armed timer has to have its callback. -/
theorem Returns.postable {s : TimerSetting} (hret : w.Returns)
    (h : w.kqueue w.key = some (w.knote s)) : w.timer.timerPostable = true := by
  by_contra hpost
  obtain ⟨t, ht⟩ := hret .expire ⟨_, h, rfl⟩
  have hfails : w.expire = .error (.assertion "rlevent->timer.timer_postable != NULL") :=
    (expire_eq_handler h).trans (handler_fails (Bool.eq_false_of_not_eq_true hpost))
  cases hfails.symm.trans ht

theorem knote_injective {s s' : TimerSetting} (h : w.knote s = w.knote s') : s = s' := by
  obtain ⟨-, hmode, hinterval, -⟩ := Knote.mk.inj h
  rw [TimerSetting.mk.injEq]
  exact ⟨hinterval, Bool.not_inj hmode⟩

theorem holds_of_known (hl : t.Lawful) (hk : t.Known) : (t.Lawful ∧ t.Returns) ∧ t.Known :=
  ⟨⟨hl, hk.returns⟩, hk⟩

/-- A timer just set to what was asked for. -/
theorem holds_of_armed (s : TimerSetting) (hasked : t.asked = some s)
    (hkn : t.kqueue t.key = some (t.knote s)) (hrun : t.running = true) (hzero : t.delivered = 0)
    (hpost : t.timer.timerPostable = true) : (t.Lawful ∧ t.Returns) ∧ t.Known := by
  refine holds_of_known ⟨fun s' hs' _ _ => ?_, fun _ _ _ => by omega⟩
    ⟨fun kn hkn' _ => ⟨s, hasked, ?_, fun _ => hzero, hrun⟩, by rw [hasked, hpost]; rfl⟩
  · rw [← Option.some.inj (hasked.symm.trans hs'), hkn]
  · exact Option.some.inj (hkn'.symm.trans hkn)

/-- A timer that was stopped: the count of callbacks stays. -/
theorem holds_of_stopped (hk : w.Known) (hl : w.Lawful) (htimer : t.timer = w.timer)
    (hasked : t.asked = w.asked) (hdelivered : t.delivered = w.delivered)
    (hrun : t.running = false) (hoff : ∀ kn, t.kqueue t.key = some kn → kn.enabled = false) :
    (t.Lawful ∧ t.Returns) ∧ t.Known := by
  refine holds_of_known ⟨fun s _ hr _ => ?_, fun s hs hone => ?_⟩ ⟨fun kn hkn hen => ?_, ?_⟩
  · cases hrun.symm.trans hr
  · rw [hdelivered]
    exact hl.oneShot s (hasked ▸ hs) hone
  · cases (hoff kn hkn).symm.trans hen
  · rw [hasked, htimer, hk.postable]

theorem step_update (intervalMs : UInt64) (repeating : Bool)
    (hx : w.exec (.update intervalMs repeating) = .ok t) :
    Machine.HoldsIff (fun w => w.Lawful ∧ w.Returns) Known t (w.timer.timerPostable = true) := by
  obtain rfl := Except.ok.inj hx
  have hkn := register_knote w ⟨intervalMs, repeating⟩
  by_cases hpost : w.timer.timerPostable = true
  · exact .of_holds (holds_of_armed ⟨intervalMs, repeating⟩ rfl hkn rfl rfl hpost) hpost
  · exact .of_not (fun h => hpost (h.2.postable hkn)) hpost

theorem step_rearm (hk : w.Known) (hx : w.exec .rearm = .ok t) :
    Machine.HoldsIff (fun w => w.Lawful ∧ w.Returns) Known t
      (w.asked = some w.timer.setting) := by
  obtain rfl := Except.ok.inj hx
  have hkn := register_knote w w.timer.setting
  cases hasked : w.asked with
  | none =>
    refine .of_not (fun h => ?_) (by simp)
    have hpost : w.timer.timerPostable = true := h.2.postable hkn
    rw [← hk.postable, hasked] at hpost
    cases hpost
  | some s =>
    have hpost : w.timer.timerPostable = true := by rw [← hk.postable, hasked]; rfl
    by_cases hs : s = w.timer.setting
    · subst hs
      exact .of_holds (holds_of_armed w.timer.setting hasked hkn rfl rfl hpost) rfl
    · refine .of_not (fun h => ?_) (fun h => hs (Option.some.inj h))
      have harmed := (h.1.armed s hasked rfl (.inr rfl)).symm.trans hkn
      have hnote : w.knote s = w.knote w.timer.setting := Option.some.inj harmed
      exact hs (knote_injective hnote)

/-- A timer whose setting does not repeat, after its one callback. -/
theorem holds_of_expired (s : TimerSetting) (hasked : t.asked = some s) (hrep : s.repeating = false)
    (hone : t.delivered = 1) (hgone : t.kqueue t.key = none)
    (hpost : t.timer.timerPostable = true) : (t.Lawful ∧ t.Returns) ∧ t.Known := by
  refine holds_of_known ⟨fun s' hs' _ hor => ?_, fun _ _ _ => hone.le⟩
    ⟨fun kn hkn _ => ?_, by rw [hasked, hpost]; rfl⟩
  · obtain rfl := Option.some.inj (hasked.symm.trans hs')
    rw [hrep, hone] at hor
    simp at hor
  · cases hgone.symm.trans hkn

/-- A timer whose setting repeats is as good after a callback as before. -/
theorem holds_of_repeated (s : TimerSetting) (hasked : t.asked = some s) (hrep : s.repeating = true)
    (hkn : t.kqueue t.key = some (t.knote s)) (hrun : t.running = true)
    (hpost : t.timer.timerPostable = true) : (t.Lawful ∧ t.Returns) ∧ t.Known := by
  have hnot : s.repeating ≠ false := by rw [hrep]; decide
  refine holds_of_known ⟨fun s' hs' _ _ => ?_, fun s' hs' hone => ?_⟩
    ⟨fun kn hkn' _ => ⟨s, hasked, ?_, fun hone => absurd hone hnot, hrun⟩, by rw [hasked, hpost]; rfl⟩
  · rw [← Option.some.inj (hasked.symm.trans hs'), hkn]
  · obtain rfl := Option.some.inj (hasked.symm.trans hs')
    exact absurd hone hnot
  · exact Option.some.inj (hkn'.symm.trans hkn)

theorem step_expire (hk : w.Known) (he : w.Expires) (hx : w.expire = .ok t) :
    Machine.HoldsIff (fun w => w.Lawful ∧ w.Returns) Known t
      (∀ s ∈ w.asked, s.repeating = true → w.timer.repeating = true) := by
  obtain ⟨kn, hkn, hen⟩ := he
  obtain ⟨s, hs, rfl, hzero, hrun⟩ := hk.enabled kn hkn hen
  have hpost : w.timer.timerPostable = true := by rw [← hk.postable, hs]; rfl
  obtain ⟨t', hx', htimer, hasked, hrun', hdelivered, hkq⟩ := expire_eq hkn hpost
  obtain rfl := Except.ok.inj (hx.symm.trans hx')
  have hkey : t.key = w.key := by rw [key, htimer, key]
  have hnote : t.knote s = w.knote s := by rw [knote, htimer, knote]
  rw [← htimer] at hpost
  rw [← hkey, ← hnote] at hkq
  rw [hs] at hasked
  cases hrep : s.repeating with
  | false =>
    rw [hrep, Bool.false_and, if_neg Bool.false_ne_true] at hkq
    have hone : t.delivered = 1 := by rw [hdelivered, hzero hrep]
    refine .of_holds (holds_of_expired s hasked hrep hone hkq hpost) fun s' hs' hrep' => ?_
    obtain rfl := Option.some.inj (hs.symm.trans hs')
    cases hrep.symm.trans hrep'
  | true =>
    cases hobj : w.timer.repeating with
    | true =>
      rw [hrep, hobj, Bool.true_and, if_pos rfl] at hkq
      exact .of_holds (holds_of_repeated s hasked hrep hkq (hrun'.trans hrun) hpost) fun _ _ _ => rfl
    | false =>
      rw [hrep, hobj, Bool.and_false, if_neg Bool.false_ne_true] at hkq
      refine .of_not (fun h => ?_) fun h => Bool.false_ne_true (h s hs hrep)
      have harmed := h.1.armed s hasked (hrun'.trans hrun) (.inl hrep)
      cases hkq.symm.trans harmed

end KqueueTimerWorld

theorem kqueueTimer_step (w : KqueueTimerWorld) (e : KqueueTimerEvent) (t : KqueueTimerWorld)
    (hk : w.Known) (hp : w.Lawful ∧ w.Returns) (he : kqueueTimerMachine.enabled w e)
    (hx : kqueueTimerMachine.exec w e = .ok t) :
    Machine.HoldsIff (fun w => w.Lawful ∧ w.Returns) KqueueTimerWorld.Known t (e.Works w) := by
  cases e with
  | register intervalMs repeating =>
    obtain rfl := Except.ok.inj hx
    exact .of_holds (KqueueTimerWorld.holds_of_armed ⟨intervalMs, repeating⟩ rfl
      (w.register_knote ⟨intervalMs, repeating⟩) rfl rfl rfl) trivial
  | update intervalMs repeating => exact KqueueTimerWorld.step_update intervalMs repeating hx
  | disarm =>
    obtain rfl := Except.ok.inj hx
    refine .of_holds (KqueueTimerWorld.holds_of_stopped hk hp.1 rfl rfl rfl rfl fun kn hkn => ?_)
      trivial
    rw [← Option.some.inj ((kqhPause_self w.kqueue w.key).symm.trans hkn)]
  | rearm => exact KqueueTimerWorld.step_rearm hk hx
  | deregister =>
    obtain rfl := Except.ok.inj hx
    refine .of_holds (KqueueTimerWorld.holds_of_stopped hk hp.1 rfl rfl rfl rfl fun kn hkn => ?_)
      trivial
    cases (kqhCancel_self w.kqueue w.key).symm.trans hkn
  | expire => exact KqueueTimerWorld.step_expire hk he hx

/-- In a run from a new timer, the timer keeps to the setting of the most recent register or
update exactly if every update came after a register, every rearm found that setting in the
object, and every expiry of a repeating timer found it repeating there. -/
theorem kqueueTimer_lawful_iff (rlevent : KqueueEvent) (kqueue : Kqueue)
    (hnew : kqueue ⟨rlevent.addr, .timer⟩ = none) (es : List KqueueTimerEvent)
    (t : KqueueTimerWorld)
    (hrun : kqueueTimerMachine.Run (.runloopTimerInit rlevent kqueue) es t) :
    kqueueTimerMachine.Always (fun w => w.Lawful ∧ w.Returns) (.runloopTimerInit rlevent kqueue) es ↔
      (kqueueTimerMachine.restrict fun w e => e.Works w).Run
        (.runloopTimerInit rlevent kqueue) es t := by
  have hk : (KqueueTimerWorld.runloopTimerInit rlevent kqueue).Known := by
    refine ⟨fun kn hkn => ?_, rfl⟩
    cases hnew.symm.trans hkn
  exact hrun.always_iff kqueueTimer_step hk ⟨⟨nofun, nofun⟩, hk.returns⟩

/-- A repeating timer that expires, is disarmed and rearmed, and expires again. -/
theorem kqueueTimer_lawful_rearmed :
    ∃ t, kqueueTimerMachine.Run (.runloopTimerInit ⟨4096, 0⟩ fun _ => none)
        [.register 100 true, .expire, .disarm, .rearm, .expire] t ∧
      kqueueTimerMachine.Always (fun w => w.Lawful ∧ w.Returns)
        (.runloopTimerInit ⟨4096, 0⟩ fun _ => none)
        [.register 100 true, .expire, .disarm, .rearm, .expire] := by
  obtain ⟨t, hrun⟩ : ∃ t, (kqueueTimerMachine.restrict fun w e => e.Works w).Run
      (.runloopTimerInit ⟨4096, 0⟩ fun _ => none)
      [.register 100 true, .expire, .disarm, .rearm, .expire] t :=
    Machine.exists_run_of_isSome (by decide)
  exact ⟨t, hrun.of_restrict, (kqueueTimer_lawful_iff _ _ rfl _ _ hrun.of_restrict).mpr hrun⟩

/-- A one-shot timer that was updated to repeat is gone after its first expiry. A repeating
one that was updated to another interval goes back to the old one when it is rearmed. -/
theorem kqueueTimer_forgets_update :
    (∃ t, kqueueTimerMachine.Run (.runloopTimerInit ⟨4096, 0⟩ fun _ => none)
        [.register 100 false, .update 200 true, .expire] t ∧
      t.asked = some ⟨200, true⟩ ∧ t.running = true ∧ t.kqueue t.key = none) ∧
      ∃ t, kqueueTimerMachine.Run (.runloopTimerInit ⟨4096, 0⟩ fun _ => none)
          [.register 100 true, .update 200 true, .disarm, .rearm] t ∧
        t.asked = some ⟨200, true⟩ ∧ t.kqueue t.key = some (t.knote ⟨100, true⟩) :=
  ⟨Machine.exists_run_of_replay _ (by decide), Machine.exists_run_of_replay _ (by decide)⟩

end CHttp
