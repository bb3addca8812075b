import NuttxRtos.Wdog.Model

/-!
# From an absolute time to ticks

`clock_abstime2ticks` of `sched/clock` and the `long long` branch of `clock_time2ticks`. The
nanoseconds of a 32-bit `time_t` are far inside an `int64_t`; the ticks are narrowed to `sclock_t`,
and by the callers, which start a watchdog, to the `int32_t` of `wd_start`.
-/

namespace NuttxRtos.Clock

/-- A `struct timespec` whose nanoseconds are in range. -/
structure Timespec where
  tvSec : ℕ
  tvNsec : ℤ
  sec_lt : tvSec < 2 ^ 32
  nsec_range : 0 ≤ tvNsec ∧ tvNsec < 10 ^ 9

/-- The time in nanoseconds. -/
def Timespec.nanoseconds (t : Timespec) : ℤ := t.tvSec * 10 ^ 9 + t.tvNsec

/-- The width of `sclock_t` and `NSEC_PER_TICK`. -/
structure Config where
  /-- `CONFIG_SYSTEM_TIME64` -/
  time64 : Bool
  nsecPerTick : ℤ
  tick_range : 0 < nsecPerTick ∧ nsecPerTick < 2 ^ 31

/-- `clock_timespec_compare` -/
def clockTimespecCompare (a b : Timespec) : ℤ :=
  if a.tvSec < b.tvSec then -1 else if a.tvSec > b.tvSec then 1 else a.tvNsec - b.tvNsec

/-- `clock_time2ticks` -/
def clockTime2ticks (c : Config) (tvSec tvNsec : ℤ) : ℤ :=
  ((tvSec * 10 ^ 9 + tvNsec + c.nsecPerTick - 1).tdiv c.nsecPerTick).bmod
    (if c.time64 then 2 ^ 64 else 2 ^ 32)

/-- `clock_abstime2ticks`, at the time `currtime`. -/
def clockAbstime2ticks (c : Config) (abstime currtime : Timespec) : ℤ :=
  if clockTimespecCompare abstime currtime < 0 then -1
  else
    let tvNsec := abstime.tvNsec - currtime.tvNsec
    let tvSec := (abstime.tvSec : ℤ) - currtime.tvSec
    if tvNsec < 0 then clockTime2ticks c (tvSec - 1) (tvNsec + 10 ^ 9)
    else clockTime2ticks c tvSec tvNsec

/-- When a wait for which nothing else happens reports `ETIMEDOUT`: at once, never, or with that
timer interrupt. -/
inductive Timeout where
  | now
  | never
  | after (ticks : ℤ)
  deriving DecidableEq

/-- What `nxsem_timedwait` and `nxmq_timedsend` do with the count. `wd_start` refuses a negative
delay, and the result is not looked at. -/
def timedwait (ticks : ℤ) : Option Timeout :=
  if ticks ≤ 0 then some .now
  else
    let delay := ticks.bmod (2 ^ 32)
    if delay < 0 then some .never else (Watchdog.startDelay delay).map .after

/-- The report does not come before the time `left` is over; the first interrupt may come at
once. -/
def Timeout.NotBefore (c : Config) (left : ℤ) : Timeout → Prop
  | .now => left ≤ 0
  | .never => True
  | .after ticks => left ≤ (ticks - 1) * c.nsecPerTick

/-- The count is negative only in the past, else it is the rounded time `left`, and the caller does
not time out before. -/
def Kept (c : Config) (left ticks : ℤ) : Prop :=
  (ticks < 0 → left < 0) ∧
    (0 ≤ ticks → (ticks - 1) * c.nsecPerTick < left ∧ left ≤ ticks * c.nsecPerTick) ∧
      ∃ timeout, timedwait ticks = some timeout ∧ timeout.NotBefore c left

/-- The ticks that the time takes, rounded up. -/
def ticksOf (c : Config) (left : ℤ) : ℤ := (left + c.nsecPerTick - 1) / c.nsecPerTick

variable (c : Config) (abstime currtime : Timespec)

theorem clockTimespecCompare_neg :
    clockTimespecCompare abstime currtime < 0 ↔ abstime.nanoseconds < currtime.nanoseconds := by
  have := abstime.nsec_range
  have := currtime.nsec_range
  unfold clockTimespecCompare Timespec.nanoseconds
  split_ifs <;> omega

theorem ticksOf_eq_iff {left : ℤ} (future : 0 ≤ left) (ticks : ℤ) :
    ticksOf c left = ticks ↔ (ticks < 0 → left < 0) ∧
      (0 ≤ ticks → (ticks - 1) * c.nsecPerTick < left ∧ left ≤ ticks * c.nsecPerTick) := by
  have tick := c.tick_range
  rw [ticksOf, Int.ediv_eq_iff_of_pos tick.1, Int.sub_mul]
  by_cases negative : ticks < 0
  · have := Int.mul_neg_of_neg_of_pos negative tick.1
    omega
  · omega

theorem ticksOf_le_iff (left n : ℤ) : ticksOf c left ≤ n ↔ left ≤ n * c.nsecPerTick := by
  have tick := c.tick_range.1
  rw [ticksOf, Int.le_iff_lt_add_one, Int.ediv_lt_iff_lt_mul tick, Int.add_mul]
  omega

theorem startDelay_eq {delay : ℤ} (positive : 0 < delay) (small : delay < 2 ^ 31) :
    Watchdog.startDelay delay = if delay = 2 ^ 31 - 1 then none else some (delay + 1) := by
  unfold Watchdog.startDelay
  rw [if_neg (by omega)]
  split
  · next last => simp [last, CheckedInt.int32, CheckedInt.InInt32]
  · rw [CheckedInt.int32_eq (by omega) (by omega)]
    simp
    omega

/-- The caller keeps a count that fits with one to spare, and one that `wd_start` refuses. -/
theorem timedwait_keeps_iff {left : ℤ} (future : 0 ≤ left) :
    (∃ timeout, timedwait (ticksOf c left) = some timeout ∧ timeout.NotBefore c left) ↔
      left ≤ (2 ^ 31 - 2) * c.nsecPerTick ∨ 2 ^ 31 ≤ ticksOf c left % 2 ^ 32 := by
  have le := ticksOf_le_iff c left
  have nonneg : 0 ≤ ticksOf c left :=
    Int.ediv_nonneg (by have := c.tick_range; omega) (Int.le_of_lt c.tick_range.1)
  rw [← le]
  generalize ticksOf c left = n at *
  unfold timedwait
  split
  · have zero : n = 0 := by omega
    have due := (le 0).1 (by omega)
    simpa [zero, Timeout.NotBefore] using due
  next positive =>
  have wrap := Int.bmod_def n (2 ^ 32)
  dsimp only
  generalize n.bmod (2 ^ 32) = delay at *
  split
  · simp [Timeout.NotBefore]
    omega
  next started =>
  by_cases zero : delay = 0
  · simp [zero, Watchdog.startDelay, Timeout.NotBefore, ← le]
    omega
  rw [startDelay_eq (by omega) (by omega)]
  split
  · simp
    omega
  · simp [Timeout.NotBefore, ← le]
    omega

theorem clockTime2ticks_eq {tvSec tvNsec left : ℤ} (same : tvSec * 10 ^ 9 + tvNsec = left)
    (range : 0 ≤ left ∧ left < 2 ^ 62) :
    clockTime2ticks c tvSec tvNsec = ticksOf c left ↔
      c.time64 = true ∨ left ≤ (2 ^ 31 - 1) * c.nsecPerTick := by
  have tick := c.tick_range
  have ceil := Int.ediv_nonneg (show 0 ≤ left + c.nsecPerTick - 1 by omega) (Int.le_of_lt tick.1)
  have small : (left + c.nsecPerTick - 1) / c.nsecPerTick < 2 ^ 63 := by
    apply Int.ediv_lt_of_lt_mul tick.1
    omega
  rw [← ticksOf_le_iff]
  unfold clockTime2ticks ticksOf
  rw [same, Int.tdiv_eq_ediv_of_nonneg (by omega), Int.bmod_eq_iff (by split <;> decide)]
  cases c.time64 <;> simp <;> omega

/-- A deadline is kept exactly if it is in the past, or the ticks to it fit into an `int32_t` with
one to spare, or `wd_start` refuses them. -/
theorem abstime2ticks_kept_iff :
    Kept c (abstime.nanoseconds - currtime.nanoseconds) (clockAbstime2ticks c abstime currtime) ↔
      abstime.nanoseconds < currtime.nanoseconds ∨
      abstime.nanoseconds - currtime.nanoseconds ≤ (2 ^ 31 - 2) * c.nsecPerTick ∨
        c.time64 = true ∧
          2 ^ 31 ≤ ticksOf c (abstime.nanoseconds - currtime.nanoseconds) % 2 ^ 32 := by
  have order := clockTimespecCompare_neg abstime currtime
  by_cases past : abstime.nanoseconds < currtime.nanoseconds
  · rw [clockAbstime2ticks, if_pos (order.2 past)]
    refine iff_of_true ⟨fun _ => by omega, nofun, .now, rfl, ?_⟩ (.inl past)
    exact Int.le_of_lt (by omega)
  have exact : clockAbstime2ticks c abstime currtime =
      ticksOf c (abstime.nanoseconds - currtime.nanoseconds) ↔ c.time64 = true ∨
        abstime.nanoseconds - currtime.nanoseconds ≤ (2 ^ 31 - 1) * c.nsecPerTick := by
    have := abstime.sec_lt
    have := abstime.nsec_range
    have := currtime.nsec_range
    rw [clockAbstime2ticks, if_neg (mt order.1 past)]
    unfold Timespec.nanoseconds at *
    dsimp only
    split_ifs <;> apply clockTime2ticks_eq <;> omega
  have future : 0 ≤ abstime.nanoseconds - currtime.nanoseconds := by omega
  rw [Kept, ← and_assoc, ← ticksOf_eq_iff c future, eq_comm, or_iff_right past]
  rw [← ticksOf_le_iff] at exact
  constructor
  · rintro ⟨same, keeps⟩
    rw [same, timedwait_keeps_iff c future] at keeps
    have fits := exact.1 same
    rw [← ticksOf_le_iff] at keeps ⊢
    cases wide : c.time64 <;> simp [wide] at fits ⊢ <;> omega
  · intro kept
    have same := exact.2 (by
      rw [← ticksOf_le_iff] at kept
      exact kept.symm.imp And.left fun small => by omega)
    refine ⟨same, same ▸ (timedwait_keeps_iff c future).2 ?_⟩
    exact kept.imp_right And.right

/-- The last second of a 32-bit `time_t` is -100 ticks of ten milliseconds away from the first one.
With 64 bits, of 4294967300 ticks the watchdog gets 4. -/
theorem far_deadline_expired :
    (∃ c abstime currtime, ¬ Kept c (abstime.nanoseconds - currtime.nanoseconds)
      (clockAbstime2ticks c abstime currtime)) ∧
    ∃ c abstime currtime, c.time64 = true ∧ clockAbstime2ticks c abstime currtime = 4294967300 ∧
      timedwait (clockAbstime2ticks c abstime currtime) = some (.after 5) := by
  constructor
  · refine ⟨⟨false, 10 ^ 7, by decide⟩, ⟨2 ^ 32 - 1, 0, by decide, by decide⟩,
      ⟨0, 0, by decide, by decide⟩, fun kept => ?_⟩
    exact absurd (kept.1 (by decide)) (by decide)
  · exact ⟨⟨true, 10 ^ 7, by decide⟩, ⟨42949673, 0, by decide, by decide⟩,
      ⟨0, 0, by decide, by decide⟩, rfl, by decide +kernel, by decide +kernel⟩

end NuttxRtos.Clock
