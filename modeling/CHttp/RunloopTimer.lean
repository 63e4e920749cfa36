import CHttp.CMemory

/-! `RunloopTimer` on epoll: the fields of the timer, the timerfd and the registration of
its descriptor, which five functions change. -/
namespace CHttp

def epollin : UInt32 := 0x001
def epollerr : UInt32 := 0x008

structure Timespec where
  tvSec : ℤ
  tvNsec : ℤ
  deriving DecidableEq, Repr

structure Itimerspec where
  itInterval : Timespec
  itValue : Timespec
  deriving DecidableEq, Repr

/-- `RunloopTimer`: what its functions keep from call to call. -/
structure RunloopTimer where
  interval : UInt64
  repeating : Bool
  deriving DecidableEq, Repr

/-- The cast `(long)`. -/
def toLong (n : UInt64) : ℤ := n.toBitVec.toInt

/-- `WTimerFd_update_interval`. The time is counted in microseconds, and the rest that is
no whole second becomes the nanoseconds. -/
def wTimerFdUpdateInterval (intervalMs : UInt64) (repeating : Bool) : RunloopTimer × Itimerspec :=
  let exTimeNs := toLong (1000*intervalMs)
  let itValue : Timespec := ⟨exTimeNs.tdiv 1000000, exTimeNs.tmod 1000000⟩
  (⟨intervalMs, repeating⟩, ⟨if repeating then itValue else ⟨11, 0⟩, itValue⟩)

/-- What the kernel takes for a time. -/
def Timespec.Valid (ts : Timespec) : Prop := 0 ≤ ts.tvSec ∧ 0 ≤ ts.tvNsec ∧ ts.tvNsec < 1000000000

instance Timespec.decidableValid (ts : Timespec) : Decidable ts.Valid :=
  inferInstanceAs (Decidable (0 ≤ ts.tvSec ∧ 0 ≤ ts.tvNsec ∧ ts.tvNsec < 1000000000))

/-- `timerfd_settime` with a relative time: a value of 0 disarms the timer. -/
def timerfdSettime (its : Itimerspec) : Res (Option Itimerspec) := do
  cAssert (its.itValue.Valid ∧ its.itInterval.Valid) "rc == 0"
  .ok (if its.itValue = ⟨0, 0⟩ then none else some its)

/-- What the last call was for: nothing yet, to have the timer run, or to have it stop. -/
inductive TimerMode where
  | initial
  | active
  | quiet
  deriving DecidableEq, Repr

/-- A timer, what its timerfd is armed with, the mask its descriptor is registered with,
and the most recent interval that was not 0. -/
structure TimerWorld where
  timer : RunloopTimer
  armed : Option Itimerspec
  registration : Option UInt32
  mode : TimerMode
  last : Option UInt64
  deriving DecidableEq, Repr

def runloopTimerInit : TimerWorld := ⟨⟨0, false⟩, none, none, .initial, none⟩

inductive TimerEvent where
  | register (intervalMs : UInt64)
  | update (intervalMs : UInt64) (repeating : Bool)
  | disarm
  | rearm
  | deregister
  | expire
  deriving DecidableEq, Repr

/-- A new interval, if it is not 0. -/
def TimerWorld.noted (w : TimerWorld) (intervalMs : UInt64) : Option UInt64 :=
  if intervalMs = 0 then w.last else some intervalMs

/-- `timerfd_settime` with what `WTimerFd_update_interval` makes of an interval. -/
def TimerWorld.settime (w : TimerWorld) (intervalMs : UInt64) (repeating : Bool) :
    Res TimerWorld := do
  let (timer, its) := wTimerFdUpdateInterval intervalMs repeating
  let armed ← timerfdSettime its
  .ok { w with timer := timer, armed := armed }

/-- `runloop_register`, for which the descriptor must be new to epoll. -/
def runloopTimerRegister (w : TimerWorld) (intervalMs : UInt64) (repeating : Bool) :
    Res TimerWorld := do
  let w ← w.settime intervalMs repeating
  cAssert w.registration.isNone "status == 0"
  .ok { w with registration := some (epollin ||| epollerr) }

/-- The descriptor is registered anew with an empty mask. -/
def runloopTimerUpdate (w : TimerWorld) (intervalMs : UInt64) (repeating : Bool) :
    Res TimerWorld := do
  let w ← w.settime intervalMs repeating
  cAssert w.registration.isSome "this->entries[fd] != NULL"
  .ok { w with registration := some 0 }

/-- The timer is set to the interval that it has. -/
def runloopTimerDisarm (w : TimerWorld) : Res TimerWorld :=
  w.settime w.timer.interval w.timer.repeating

def runloopTimerRearm (w : TimerWorld) : Res TimerWorld :=
  w.settime w.timer.interval w.timer.repeating

def runloopTimerDeregister (w : TimerWorld) : Res TimerWorld := do
  cAssert w.registration.isSome "this->entries[fd] != NULL"
  .ok { w with registration := none }

/-- The timerfd after an expiry. -/
def Itimerspec.next (its : Itimerspec) : Option Itimerspec :=
  if its.itInterval = ⟨0, 0⟩ then none else some ⟨its.itInterval, its.itInterval⟩

/-- `handler`, up to its call of the timer's callback. -/
def timerHandler (w : TimerWorld) : Res TimerWorld :=
  if w.timer.repeating then .ok w else runloopTimerDeregister w

def TimerWorld.exec (w : TimerWorld) : TimerEvent → Res TimerWorld
  | .register intervalMs => do
    let t ← runloopTimerRegister w intervalMs true
    .ok { t with mode := .active, last := w.noted intervalMs }
  | .update intervalMs repeating => do
    let t ← runloopTimerUpdate w intervalMs repeating
    .ok { t with mode := .active, last := w.noted intervalMs }
  | .disarm => do
    let t ← runloopTimerDisarm w
    .ok { t with mode := .quiet }
  | .rearm => do
    let t ← runloopTimerRearm w
    .ok { t with mode := .active }
  | .deregister => do
    let t ← runloopTimerDeregister w
    .ok { t with mode := .quiet }
  | .expire => timerHandler { w with armed := w.armed.bind Itimerspec.next }

/-- An expiry is delivered for a timer that is armed and registered for EPOLLIN. -/
def TimerWorld.Delivers (w : TimerWorld) : Prop :=
  w.armed.isSome = true ∧ ∃ mask ∈ w.registration, mask &&& epollin ≠ 0

instance TimerWorld.decidableDelivers (w : TimerWorld) : Decidable w.Delivers :=
  inferInstanceAs (Decidable (w.armed.isSome = true ∧ ∃ mask ∈ w.registration, mask &&& epollin ≠ 0))

/-- The five functions may be called at any time. -/
def TimerWorld.Enabled (w : TimerWorld) : TimerEvent → Prop
  | .expire => w.Delivers
  | _ => True

def timerMachine : Machine TimerWorld TimerEvent Fault := ⟨TimerWorld.Enabled, TimerWorld.exec⟩

instance timerMachine.decidableEnabled (w : TimerWorld) (e : TimerEvent) :
    Decidable (timerMachine.enabled w e) :=
  match e with
  | .expire => inferInstanceAs (Decidable w.Delivers)
  | .register _ | .update _ _ | .disarm | .rearm | .deregister => inferInstanceAs (Decidable True)

def Timespec.nanoseconds (ts : Timespec) : ℤ := 1000000000*ts.tvSec+ts.tvNsec

/-- The next expiry and the ones after it come at the interval. -/
def Itimerspec.Runs (its : Itimerspec) (intervalMs : UInt64) : Prop :=
  its.itValue.nanoseconds = 1000000*intervalMs.toNat ∧
    its.itInterval.nanoseconds = 1000000*intervalMs.toNat

/-- After a call to stop it the timer delivers nothing; after a call to run it it is armed
with the most recent interval that was not 0 and registered for EPOLLIN. -/
structure TimerWorld.Lawful (w : TimerWorld) : Prop where
  quiet : w.mode = .quiet → ¬w.Delivers
  active : w.mode = .active → w.Delivers ∧
    ∃ intervalMs its, w.last = some intervalMs ∧ w.armed = some its ∧ its.Runs intervalMs

/-- An interval that the timer keeps: whole seconds, few enough to be counted in
microseconds. -/
def WholeSeconds (intervalMs : UInt64) : Prop :=
  intervalMs ≠ 0 ∧ intervalMs.toNat % 1000 = 0 ∧ 1000*intervalMs.toNat < 2^63

instance decidableWholeSeconds (intervalMs : UInt64) : Decidable (WholeSeconds intervalMs) :=
  inferInstanceAs (Decidable
    (intervalMs ≠ 0 ∧ intervalMs.toNat % 1000 = 0 ∧ 1000*intervalMs.toNat < 2^63))

/-- The calls that do what they are for. -/
def TimerEvent.Works (w : TimerWorld) : TimerEvent → Prop
  | .register intervalMs => WholeSeconds intervalMs
  | .update _ _ => False
  | .disarm => w.registration = none
  | .rearm => w.registration ≠ none
  | .deregister | .expire => True

instance TimerEvent.decidableWorks (w : TimerWorld) (e : TimerEvent) : Decidable (e.Works w) :=
  match e with
  | .register intervalMs => inferInstanceAs (Decidable (WholeSeconds intervalMs))
  | .update _ _ => inferInstanceAs (Decidable False)
  | .disarm => inferInstanceAs (Decidable (w.registration = none))
  | .rearm => inferInstanceAs (Decidable (w.registration ≠ none))
  | .deregister | .expire => inferInstanceAs (Decidable True)

section time

theorem toLong_eq (n : UInt64) (h : 0 ≤ toLong n) : toLong n = n.toNat ∧ n.toNat < 2^63 := by
  have hcond := BitVec.toInt_eq_toNat_cond n.toBitVec
  rw [toLong] at h ⊢
  have hlt := n.toNat_lt
  rw [UInt64.toNat_toBitVec] at hcond
  split_ifs at hcond <;> omega

/-- The time that `WTimerFd_update_interval` programs, from the number of microseconds. -/
def programmed (us : ℕ) : Timespec := ⟨(us/1000000 : ℕ), (us%1000000 : ℕ)⟩

theorem programmed_nanoseconds (us : ℕ) :
    (programmed us).nanoseconds = (1000000000*(us/1000000)+us%1000000 : ℕ) := by
  rw [Timespec.nanoseconds, programmed]
  push_cast
  rfl

/-- Where the kernel takes the time, its number of microseconds has not become negative. -/
theorem programmed_of_valid (n : UInt64)
    (hv : Timespec.Valid ⟨(toLong n).tdiv 1000000, (toLong n).tmod 1000000⟩) :
    n.toNat < 2^63 ∧
      (⟨(toLong n).tdiv 1000000, (toLong n).tmod 1000000⟩ : Timespec) = programmed n.toNat := by
  obtain ⟨hsec, hnsec, -⟩ := hv
  have hsplit := Int.mul_tdiv_add_tmod (toLong n) 1000000
  have hpos : 0 ≤ toLong n := by
    have hsec' : 0 ≤ (toLong n).tdiv 1000000 := hsec
    have hnsec' : 0 ≤ (toLong n).tmod 1000000 := hnsec
    omega
  obtain ⟨heq, hlt⟩ := toLong_eq n hpos
  refine ⟨hlt, ?_⟩
  rw [heq, programmed, Timespec.mk.injEq]
  exact ⟨by rw [Int.tdiv_eq_ediv_of_nonneg (Int.natCast_nonneg _)]; rfl,
    by rw [Int.tmod_eq_emod_of_nonneg (Int.natCast_nonneg _)]; rfl⟩

theorem programmed_eq_zero_iff (us : ℕ) : programmed us = ⟨0, 0⟩ ↔ us = 0 := by
  rw [programmed, Timespec.mk.injEq]
  omega

/-- Only whole seconds come out as they went in. -/
theorem programmed_eq_iff (interval us : ℕ) (hus : us = 1000*interval%2^64) (hlt : us < 2^63) :
    1000000000*(us/1000000)+us%1000000 = 1000000*interval ↔
      interval%1000 = 0 ∧ 1000*interval < 2^63 := by
  by_cases hwrap : 1000*interval < 2^64
  · rw [Nat.mod_eq_of_lt hwrap] at hus
    have hdiv : us/1000000 = interval/1000 := by
      rw [hus]
      exact Nat.mul_div_mul_left interval 1000 (by decide)
    have hmod : us%1000000 = 1000*(interval%1000) := by
      rw [hus]
      exact Nat.mul_mod_mul_left 1000 interval 1000
    have hsplit := Nat.div_add_mod interval 1000
    rw [hdiv, hmod]
    constructor
    · intro heq
      exact ⟨by omega, hus ▸ hlt⟩
    · rintro ⟨hzero, -⟩
      omega
  · have hle : 1000000000*(us/1000000)+us%1000000 ≤ 1000*us := by
      have hsplit := Nat.div_add_mod us 1000000
      clear hus hlt hwrap
      omega
    clear hus
    rw [not_lt] at hwrap
    exact iff_of_false (by omega) (by omega)

end time

section steps

variable {w t : TimerWorld} {intervalMs : UInt64} {repeating : Bool}

theorem TimerWorld.Delivers.registered (h : w.Delivers) :
    ∃ mask, w.registration = some mask ∧ mask &&& epollin ≠ 0 := by
  obtain ⟨-, mask, hmask, hin⟩ := h
  exact ⟨mask, hmask, hin⟩

/-- What a new setting does: the timer is armed unless the programmed time is 0. -/
theorem settime_eq_ok (h : w.settime intervalMs repeating = .ok t) :
    ∃ us, us = 1000*intervalMs.toNat%2^64 ∧ us < 2^63 ∧ t = { w with
      timer := ⟨intervalMs, repeating⟩
      armed := if us = 0 then none
        else some ⟨if repeating then programmed us else ⟨11, 0⟩, programmed us⟩ } := by
  obtain ⟨armed, hset, h⟩ := (bind_eq_ok _ _ _).mp h
  obtain rfl := Except.ok.inj h
  rw [timerfdSettime, cAssert_bind_eq_ok, decide_eq_true_eq] at hset
  obtain ⟨⟨hv, -⟩, hset⟩ := hset
  obtain ⟨hlt, hprog⟩ := programmed_of_valid (1000*intervalMs) hv
  refine ⟨(1000*intervalMs).toNat, UInt64.toNat_mul _ _, hlt, ?_⟩
  rw [← Except.ok.inj hset]
  simp only [hprog, programmed_eq_zero_iff]

/-- The timer keeps exactly the intervals of whole seconds. -/
theorem settime_runs_iff (h : w.settime intervalMs true = .ok t) :
    (∃ its, t.armed = some its ∧ its.Runs intervalMs ∧ intervalMs ≠ 0) ↔ WholeSeconds intervalMs := by
  obtain ⟨us, hus, hlt, rfl⟩ := settime_eq_ok h
  have hiff := programmed_eq_iff intervalMs.toNat us hus hlt
  have hruns : Itimerspec.Runs ⟨programmed us, programmed us⟩ intervalMs ↔
      1000000000*(us/1000000)+us%1000000 = 1000000*intervalMs.toNat := by
    rw [Itimerspec.Runs, programmed_nanoseconds, and_self]
    exact_mod_cast Iff.rfl
  rw [hiff] at hruns
  constructor
  · rintro ⟨its, harmed, hits, hne⟩
    simp only [if_true] at harmed
    split_ifs at harmed
    obtain rfl := Option.some.inj harmed
    exact ⟨hne, hruns.mp hits⟩
  · rintro ⟨hne, hwhole⟩
    have hzero : us ≠ 0 := by
      have hpos : intervalMs.toNat ≠ 0 := fun hz => hne (UInt64.toNat_inj.mp hz)
      rw [Nat.mod_eq_of_lt (hwhole.2.trans (by decide))] at hus
      omega
    refine ⟨⟨programmed us, programmed us⟩, ?_, hruns.mpr hwhole, hne⟩
    simp only [hzero, if_false, if_true]

theorem settime_frame (h : w.settime intervalMs repeating = .ok t) :
    t.timer = ⟨intervalMs, repeating⟩ ∧ t.registration = w.registration ∧ t.mode = w.mode ∧
      t.last = w.last := by
  obtain ⟨us, -, -, rfl⟩ := settime_eq_ok h
  exact ⟨rfl, rfl, rfl, rfl⟩

/-- A registered timer runs at the interval it has. -/
def TimerWorld.Running (w : TimerWorld) : Prop :=
  w.registration ≠ none → w.mode = .active ∧ w.timer.repeating = true ∧
    WholeSeconds w.timer.interval ∧ w.last = some w.timer.interval

theorem not_delivers (h : w.registration = none) : ¬w.Delivers := by
  intro hd
  obtain ⟨mask, hmask, -⟩ := hd.registered
  cases h.symm.trans hmask

/-- A timer that is not registered cannot be called to run. -/
theorem stopped_holds (hr : w.registration = none) (hm : w.mode = .quiet) :
    w.Lawful ∧ w.Running := by
  refine ⟨⟨fun _ => not_delivers hr, fun hactive => ?_⟩, fun hreg => absurd hr hreg⟩
  cases hm.symm.trans hactive

theorem timer_register (e : w.exec (.register intervalMs) = .ok t) :
    Machine.HoldsIff TimerWorld.Lawful TimerWorld.Running t (WholeSeconds intervalMs) := by
  obtain ⟨u, hu, ht⟩ := (bind_eq_ok _ _ _).mp e
  obtain rfl := Except.ok.inj ht
  obtain ⟨v, hv, hu⟩ := (bind_eq_ok _ _ _).mp hu
  rw [cAssert_bind_eq_ok] at hu
  obtain rfl := Except.ok.inj hu.2
  have hiff := settime_runs_iff hv
  obtain ⟨htimer, -⟩ := settime_frame hv
  by_cases hwhole : WholeSeconds intervalMs
  · obtain ⟨its, harmed, hruns, hne⟩ := hiff.mpr hwhole
    have hlast : w.noted intervalMs = some intervalMs := if_neg hne
    refine .of_holds ⟨⟨nofun, fun _ => ⟨⟨?_, _, rfl, by decide⟩, intervalMs, its, hlast, harmed,
      hruns⟩⟩, fun _ => ⟨rfl, ?_, ?_, ?_⟩⟩ hwhole
    · show v.armed.isSome = true
      rw [harmed]
      rfl
    · show v.timer.repeating = true
      rw [htimer]
    · show WholeSeconds v.timer.interval
      rw [htimer]
      exact hwhole
    · show w.noted intervalMs = some v.timer.interval
      rw [htimer, hlast]
  · refine .of_not (fun hlaw => hwhole ?_) hwhole
    obtain ⟨⟨harmed, -⟩, n, its, hlast, hits, hruns⟩ := hlaw.active rfl
    by_cases hzero : intervalMs = 0
    · subst hzero
      obtain ⟨us, hus, -, rfl⟩ := settime_eq_ok hv
      obtain rfl : us = 0 := hus
      cases harmed
    · have hnoted : w.noted intervalMs = some intervalMs := if_neg hzero
      obtain rfl := Option.some.inj (hlast.symm.trans hnoted)
      exact hiff.mp ⟨its, hits, hruns, hzero⟩

theorem timer_update (e : w.exec (.update intervalMs repeating) = .ok t) :
    Machine.HoldsIff TimerWorld.Lawful TimerWorld.Running t False := by
  obtain ⟨u, hu, ht⟩ := (bind_eq_ok _ _ _).mp e
  obtain rfl := Except.ok.inj ht
  obtain ⟨v, -, hu⟩ := (bind_eq_ok _ _ _).mp hu
  rw [cAssert_bind_eq_ok] at hu
  obtain rfl := Except.ok.inj hu.2
  refine .of_not (fun hlaw => ?_) id
  obtain ⟨mask, hmask, hin⟩ := (hlaw.active rfl).1.registered
  obtain rfl := Option.some.inj hmask
  exact hin rfl

/-- A registered timer that is set again runs as before. -/
theorem settime_again (hj : w.Running) (hp : w.Lawful) (hreg : w.registration ≠ none)
    (h : w.settime w.timer.interval w.timer.repeating = .ok t) :
    ∃ its, t.armed = some its ∧ its.Runs t.timer.interval ∧ t.timer = w.timer ∧ t.Delivers := by
  obtain ⟨hmode, hrep, hwhole, -⟩ := hj hreg
  rw [hrep] at h
  obtain ⟨its, harmed, hruns, -⟩ := (settime_runs_iff h).mpr hwhole
  obtain ⟨htimer, hregistration, -⟩ := settime_frame h
  obtain ⟨mask, hmask, hin⟩ := (hp.active hmode).1.registered
  refine ⟨its, harmed, ?_, ?_, ?_, mask, hregistration.trans hmask, hin⟩
  · rw [htimer]
    exact hruns
  · rw [htimer, ← hrep]
  · rw [harmed]
    rfl

theorem timer_disarm (hj : w.Running) (hp : w.Lawful) (e : w.exec .disarm = .ok t) :
    Machine.HoldsIff TimerWorld.Lawful TimerWorld.Running t (w.registration = none) := by
  obtain ⟨u, hu, ht⟩ := (bind_eq_ok _ _ _).mp e
  obtain rfl := Except.ok.inj ht
  obtain ⟨-, hregistration, -⟩ := settime_frame hu
  by_cases hreg : w.registration = none
  · exact .of_holds (stopped_holds (hregistration.trans hreg) rfl) hreg
  · obtain ⟨its, -, -, -, hdelivers⟩ := settime_again hj hp hreg hu
    exact .of_not (fun hlaw => hlaw.quiet rfl hdelivers) hreg

theorem timer_rearm (hj : w.Running) (hp : w.Lawful) (e : w.exec .rearm = .ok t) :
    Machine.HoldsIff TimerWorld.Lawful TimerWorld.Running t (w.registration ≠ none) := by
  obtain ⟨u, hu, ht⟩ := (bind_eq_ok _ _ _).mp e
  obtain rfl := Except.ok.inj ht
  obtain ⟨-, hregistration, -, hlast⟩ := settime_frame hu
  by_cases hreg : w.registration = none
  · refine .of_not (fun hlaw => ?_) (not_not_intro hreg)
    exact not_delivers (w := { u with mode := .active }) (hregistration.trans hreg)
      (hlaw.active rfl).1
  · obtain ⟨-, hrep, hwhole, hlast'⟩ := hj hreg
    obtain ⟨its, harmed, hruns, htimer, hdelivers⟩ := settime_again hj hp hreg hu
    have hlast : u.last = some u.timer.interval := by rw [hlast, htimer, hlast']
    refine .of_holds ⟨⟨nofun, fun _ => ⟨hdelivers, _, its, hlast, harmed, hruns⟩⟩,
      fun _ => ⟨rfl, ?_, ?_, hlast⟩⟩ hreg
    · show u.timer.repeating = true
      rw [htimer, hrep]
    · show WholeSeconds u.timer.interval
      rw [htimer]
      exact hwhole

theorem timer_deregister (e : w.exec .deregister = .ok t) : t.Lawful ∧ t.Running := by
  obtain ⟨u, hu, ht⟩ := (bind_eq_ok _ _ _).mp e
  obtain rfl := Except.ok.inj ht
  rw [runloopTimerDeregister, cAssert_bind_eq_ok] at hu
  obtain rfl := Except.ok.inj hu.2
  exact stopped_holds rfl rfl

/-- The timerfd of a running timer is armed again by its expiry. -/
theorem timer_expire (hj : w.Running) (hp : w.Lawful) (he : w.Delivers)
    (e : w.exec .expire = .ok t) : t.Lawful ∧ t.Running := by
  obtain ⟨mask, hmask, hin⟩ := he.registered
  have hreg : w.registration ≠ none := by
    rw [hmask]
    nofun
  obtain ⟨hmode, hrep, hwhole, hlast⟩ := hj hreg
  obtain ⟨-, n, its, hn, harmed, hruns⟩ := hp.active hmode
  obtain rfl := Option.some.inj (hn.symm.trans hlast)
  have hnext : its.next = some ⟨its.itInterval, its.itInterval⟩ := by
    refine if_neg fun hzero => hwhole.1 ?_
    have hns := hruns.2
    rw [hzero] at hns
    have hz : (0 : ℤ) = 1000000*w.timer.interval.toNat := hns
    exact UInt64.toNat_inj.mp (by show _ = 0; omega)
  simp only [TimerWorld.exec, timerHandler, hrep, if_true, harmed, Option.bind_some, hnext] at e
  obtain rfl := Except.ok.inj e
  refine ⟨⟨fun hquiet => ?_, fun _ => ⟨⟨rfl, mask, hmask, hin⟩, _, _, hlast, rfl, hruns.2, hruns.2⟩⟩,
    fun _ => ⟨hmode, hrep, hwhole, hlast⟩⟩
  cases hmode.symm.trans hquiet

theorem timer_step (hj : w.Running) (hp : w.Lawful) (e : TimerEvent) (he : w.Enabled e)
    (hx : w.exec e = .ok t) :
    Machine.HoldsIff TimerWorld.Lawful TimerWorld.Running t (e.Works w) := by
  cases e with
  | register intervalMs => exact timer_register hx
  | update intervalMs repeating => exact timer_update hx
  | disarm => exact timer_disarm hj hp hx
  | rearm => exact timer_rearm hj hp hx
  | deregister => exact .of_holds (timer_deregister hx) trivial
  | expire => exact .of_holds (timer_expire hj hp he hx) trivial

end steps

/-- The law holds throughout a run exactly when the timer is only ever given whole seconds,
never updated, disarmed only while it is not registered and rearmed only while it is. -/
theorem timer_law_iff (es : List TimerEvent) (w : TimerWorld)
    (h : timerMachine.Run runloopTimerInit es w) :
    timerMachine.Always TimerWorld.Lawful runloopTimerInit es ↔
      (timerMachine.restrict fun u e => e.Works u).Run runloopTimerInit es w := by
  refine h.always_iff (J := TimerWorld.Running) ?_ (fun hreg => absurd rfl hreg) ⟨nofun, nofun⟩
  intro u e v hj hp he hx
  exact timer_step hj hp e he hx

/-- A timer of two seconds that expires, is rearmed and deregistered. -/
theorem timer_law_two_seconds :
    ∃ w, timerMachine.Run runloopTimerInit
        [.register 2000, .expire, .rearm, .expire, .deregister, .disarm] w ∧
      timerMachine.Always TimerWorld.Lawful runloopTimerInit
        [.register 2000, .expire, .rearm, .expire, .deregister, .disarm] := by
  have hrun : ∃ w, (timerMachine.restrict fun u e => e.Works u).Run runloopTimerInit
      [.register 2000, .expire, .rearm, .expire, .deregister, .disarm] w :=
    Machine.exists_run_of_isSome (by decide +kernel)
  obtain ⟨w, hrun⟩ := hrun
  exact ⟨w, hrun.of_restrict, (timer_law_iff _ w hrun.of_restrict).mpr hrun⟩

/-- A disarmed timer expires, and a timer of half a second expires a thousand times too early. -/
theorem timer_disarmed_expires :
    (∃ w, timerMachine.Run runloopTimerInit [.register 1000, .disarm, .expire] w ∧
      w.mode = .quiet) ∧
    (∃ w, timerMachine.Run runloopTimerInit [.register 500] w ∧
      w.armed = some ⟨⟨0, 500000⟩, ⟨0, 500000⟩⟩) ∧
    ∃ w, timerMachine.Run runloopTimerInit [.register 1000, .update 2000 true] w ∧
      w.registration = some 0 :=
  ⟨Machine.exists_run_of_replay _ (by decide +kernel),
    Machine.exists_run_of_replay _ (by decide +kernel),
    Machine.exists_run_of_replay _ (by decide +kernel)⟩

end CHttp
