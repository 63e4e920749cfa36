import CHttp.RunloopTimer

/-! Milliseconds as a `timespec`, in the two places where a run loop makes one: the timers
on epoll, and the timeout that the run loop on kqueue gives to `kevent`. -/
namespace CHttp

/-- The timeout in `runloop_run` on kqueue: `t`, and NULL unless `timeout_ms` is positive. -/
def runloopRunTimeout (timeoutMs : ℤ) : Option Timespec :=
  let t : Timespec := ⟨timeoutMs.tdiv 1000, 1000*timeoutMs.tmod 1000⟩
  if 0 < timeoutMs then some t else none

/-- The time is so many milliseconds, in normal form. -/
def Timespec.Denotes (ts : Timespec) (ms : ℕ) : Prop :=
  ts.nanoseconds = 1000000*ms ∧ 0 ≤ ts.tvNsec ∧ ts.tvNsec < 1000000000

/-- What both places make of milliseconds: the rest that is no whole second counts
microseconds where it should count nanoseconds. -/
def wholeAndRest (ms : ℕ) : Timespec := ⟨(ms/1000 : ℕ), (1000*(ms%1000) : ℕ)⟩

theorem wholeAndRest_denotes_iff (ms : ℕ) : (wholeAndRest ms).Denotes ms ↔ ms%1000 = 0 := by
  have hsplit := Nat.div_add_mod ms 1000
  have hrest := Nat.mod_lt ms (show 1000 > 0 by decide)
  simp only [Timespec.Denotes, Timespec.nanoseconds, wholeAndRest]
  constructor
  · rintro ⟨hsame, -⟩
    omega
  · intro hzero
    exact ⟨by omega, by omega, by omega⟩

theorem programmed_eq_wholeAndRest (ms : ℕ) : programmed (1000*ms) = wholeAndRest ms := by
  rw [programmed, wholeAndRest, show 1000000 = 1000*1000 by rfl,
    Nat.mul_div_mul_left ms 1000 (by decide), Nat.mul_mod_mul_left]

theorem toLong_of_lt (n : UInt64) (h : n.toNat < 2^63) : toLong n = n.toNat := by
  have hcond := BitVec.toInt_eq_toNat_cond n.toBitVec
  rw [UInt64.toNat_toBitVec, if_pos (by omega)] at hcond
  exact hcond

/-- As long as the microseconds are a `long`. -/
theorem wTimerFdUpdateInterval_itValue (intervalMs : UInt64) (repeating : Bool)
    (h : 1000*intervalMs.toNat < 2^63) :
    (wTimerFdUpdateInterval intervalMs repeating).2.itValue = wholeAndRest intervalMs.toNat := by
  have hus : (1000*intervalMs).toNat = 1000*intervalMs.toNat := by
    rw [UInt64.toNat_mul, show (1000 : UInt64).toNat = 1000 by rfl]
    exact Nat.mod_eq_of_lt (by omega)
  have hlong : toLong (1000*intervalMs) = (1000*intervalMs.toNat : ℕ) := by
    rw [toLong_of_lt _ (by omega), hus]
  have hpos := Int.natCast_nonneg (1000*intervalMs.toNat)
  rw [← programmed_eq_wholeAndRest, programmed, wTimerFdUpdateInterval, hlong,
    Int.tdiv_eq_ediv_of_nonneg hpos, Int.tmod_eq_emod_of_nonneg hpos]
  rfl

theorem runloopRunTimeout_eq (ms : ℕ) (hpos : 0 < ms) :
    runloopRunTimeout ms = some (wholeAndRest ms) := by
  have hnonneg := Int.natCast_nonneg ms
  rw [runloopRunTimeout, if_pos (by omega), Int.tdiv_eq_ediv_of_nonneg hnonneg,
    Int.tmod_eq_emod_of_nonneg hnonneg, wholeAndRest]
  push_cast
  rfl

/-- Of all intervals and timeouts whose nanoseconds are a `long`, those of whole seconds are
converted exactly, and no others. -/
theorem intervals_exact_iff (intervalMs : UInt64) (repeating : Bool)
    (hpos : 0 < intervalMs.toNat*10^6) (hlt : intervalMs.toNat*10^6 < 2^63) (timeoutMs : ℤ)
    (hpos' : 0 < timeoutMs) (hlt' : timeoutMs*10^6 < 2^63) :
    ((wTimerFdUpdateInterval intervalMs repeating).2.itValue.Denotes intervalMs.toNat ∧
        (repeating = true → (wTimerFdUpdateInterval intervalMs repeating).2.itInterval =
          (wTimerFdUpdateInterval intervalMs repeating).2.itValue) ↔
      intervalMs.toNat%1000 = 0) ∧
    ((∃ ts, runloopRunTimeout timeoutMs = some ts ∧ ts.Denotes timeoutMs.toNat) ↔
      timeoutMs%1000 = 0) := by
  constructor
  · have hinterval : repeating = true → (wTimerFdUpdateInterval intervalMs repeating).2.itInterval =
        (wTimerFdUpdateInterval intervalMs repeating).2.itValue := by
      rintro rfl
      rfl
    rw [wTimerFdUpdateInterval_itValue intervalMs repeating (by omega)] at hinterval ⊢
    rw [wholeAndRest_denotes_iff]
    exact and_iff_left hinterval
  · obtain ⟨ms, rfl⟩ := Int.eq_ofNat_of_zero_le hpos'.le
    rw [runloopRunTimeout_eq ms (by omega), Int.toNat_natCast]
    have hexact := wholeAndRest_denotes_iff ms
    constructor
    · rintro ⟨ts, hts, hdenotes⟩
      obtain rfl := Option.some.inj hts
      exact_mod_cast hexact.mp hdenotes
    · intro hzero
      exact ⟨_, rfl, hexact.mpr (by exact_mod_cast hzero)⟩

/-- Two and three seconds. -/
theorem intervals_exact_seconds :
    (wTimerFdUpdateInterval 2000 true).2.itValue.Denotes 2000 ∧
      ∃ ts, runloopRunTimeout 3000 = some ts ∧ ts.Denotes 3000 := by
  have h := intervals_exact_iff 2000 true (by decide) (by decide) 3000 (by decide) (by decide)
  exact ⟨(h.1.mpr (by decide)).1, h.2.mpr (by decide)⟩

/-- One second and a half becomes one second and half a millisecond in both places. -/
theorem intervals_lose_rest :
    (wTimerFdUpdateInterval 1500 true).2.itValue = ⟨1, 500000⟩ ∧
      runloopRunTimeout 1500 = some ⟨1, 500000⟩ ∧
      ¬(⟨1, 500000⟩ : Timespec).Denotes 1500 := by
  refine ⟨by decide, by decide, ?_⟩
  rintro ⟨hsame, -⟩
  revert hsame
  decide

end CHttp
