import NuttxRtos.Calendar.Model

/-!
# Round trips

What `mktime` makes of the result of `gmtime_r`.
-/

namespace NuttxRtos.Calendar

/-! ## Gregorian dates -/

/-- The day number of a date of years that are counted from March; `month` 1 is March. -/
def marchDay (year month day : ℤ) : ℤ :=
  1461 * (year + 4800) / 4 + 367 * month / 12 - 3 * ((year + 4900) / 100) / 4 + day - 32075

variable {year month day day' : ℤ}

theorem clockGregorian2utc_eq (low : 1 ≤ month) (high : month ≤ 12) (early : 1 ≤ year) :
    clockGregorian2utc year month day =
      toTime (if month ≤ 2 then marchDay (year - 1) (month + 10) day
        else marchDay year (month - 2) day) := by
  unfold clockGregorian2utc marchDay
  dsimp only
  split
  · rw [show year + 4800 + -1 = year - 1 + 4800 by omega,
      show year + 4900 + -1 = year - 1 + 4900 by omega,
      show month - 2 - 12 * -1 = month + 10 by omega, Int.tdiv_eq_ediv_of_nonneg (by omega),
      Int.tdiv_eq_ediv_of_nonneg (by omega),
      Int.tdiv_eq_ediv_of_nonneg (a := year - 1 + 4900) (by omega),
      Int.tdiv_eq_ediv_of_nonneg (by omega)]
  rw [Int.add_zero, Int.add_zero, Int.mul_zero, Int.sub_zero,
    Int.tdiv_eq_ediv_of_nonneg (by omega), Int.tdiv_eq_ediv_of_nonneg (by omega),
    Int.tdiv_eq_ediv_of_nonneg (a := year + 4900) (by omega),
    Int.tdiv_eq_ediv_of_nonneg (by omega)]

/-- The date of a day number, in the terms of the algorithm: `n` centuries, `i` years and `j` months
that begin with March. -/
theorem clockUtc2gregorian_spec (jd : ℤ) (low : 2440588 ≤ jd) (high : jd ≤ 2440588 + 49710) :
    ∃ n i j d, 68 ≤ n ∧ n ≤ 70 ∧ 0 ≤ i ∧ i ≤ 99 ∧ 1 ≤ j ∧ j ≤ 12 ∧
      clockUtc2gregorian jd = ⟨100 * (n - 49) + i + j / 11, j + 2 - 12 * (j / 11), d⟩ ∧
      marchDay (100 * (n - 49) + i) j d = jd := by
  unfold clockUtc2gregorian
  dsimp only
  rw [Int.tdiv_eq_ediv_of_nonneg (a := 4 * (jd + 68569)) (by omega)]
  obtain ⟨n, hn⟩ : ∃ n, 4 * (jd + 68569) / 146097 = n := ⟨_, rfl⟩
  have n_low : 68 ≤ n := by omega
  have n_high : n ≤ 70 := by omega
  rw [hn, Int.tdiv_eq_ediv_of_nonneg (a := 146097 * n + 3) (by omega)]
  obtain ⟨l, hl⟩ : ∃ l, jd + 68569 - (146097 * n + 3) / 4 = l := ⟨_, rfl⟩
  rw [hl, Int.tdiv_eq_ediv_of_nonneg (a := 4000 * (l + 1)) (by omega)]
  obtain ⟨i, hi⟩ : ∃ i, 4000 * (l + 1) / 1461001 = i := ⟨_, rfl⟩
  have i_low : 0 ≤ i := by omega
  have i_high : i ≤ 99 := by omega
  rw [hi, Int.tdiv_eq_ediv_of_nonneg (a := 1461 * i) (by omega)]
  obtain ⟨k, hk⟩ : ∃ k, l - 1461 * i / 4 + 31 = k := ⟨_, rfl⟩
  rw [hk, Int.tdiv_eq_ediv_of_nonneg (a := 80 * k) (by omega)]
  obtain ⟨j, hj⟩ : ∃ j, 80 * k / 2447 = j := ⟨_, rfl⟩
  have j_low : 1 ≤ j := by omega
  have j_high : j ≤ 12 := by omega
  rw [hj, Int.tdiv_eq_ediv_of_nonneg (a := 2447 * j) (by omega),
    Int.tdiv_eq_ediv_of_nonneg (a := j) (by omega)]
  refine ⟨n, i, j, k - 2447 * j / 80, n_low, n_high, i_low, i_high, j_low, j_high, rfl, ?_⟩
  have months : 367 * j / 12 = 2447 * j / 80 := by omega
  have centuries : (100 * (n - 49) + i + 4900) / 100 = n := by omega
  have years : 1461 * (100 * (n - 49) + i + 4800) / 4 = 36525 * (n - 1) + 1461 * i / 4 := by omega
  unfold marchDay
  omega

theorem toTime_sub (a b : ℤ) : toTime (toTime a - b) = toTime (a - b) := by
  unfold toTime
  omega

theorem toTime_sum (a b c d : ℤ) :
    toTime (toTime (toTime (toTime a + b) + c) + d) = toTime (a + b + c + d) := by
  unfold toTime
  omega

/-- What `clock_calendar2utc` finds for months from 0 to 11: a month early. -/
theorem clockCalendar2utcGregorian_eq (low : 0 ≤ month) (high : month ≤ 11) (early : 2 ≤ year) :
    clockCalendar2utcGregorian year month day =
      toTime ((if month ≤ 2 then marchDay (year - 1) (month + 10) day
        else marchDay year (month - 2) day) - jdOfEpoch) := by
  have same : (month - 1).tdiv 12 = 0 := by
    by_cases zero : month = 0
    · rw [zero]
      rfl
    · rw [Int.tdiv_eq_ediv_of_nonneg (by omega)]
      omega
  unfold clockCalendar2utcGregorian
  simp only [same, Int.mul_zero, Int.sub_zero, Int.add_zero]
  split
  · have zero : month = 0 := by omega
    rw [clockGregorian2utc_eq (by omega) (by omega) (by omega), toTime_sub, if_neg (by omega),
      if_pos (by omega), zero]
    rfl
  · rw [clockGregorian2utc_eq (by omega) (by omega) (by omega), toTime_sub]

theorem marchDay_previous {n i j d : ℤ} (i_low : 0 ≤ i) (i_high : i ≤ 99) :
    28 ≤ marchDay (100 * (n - 49) + i) j d - (if j = 1 then marchDay (100 * (n - 49) + i - 1) 12 d
        else marchDay (100 * (n - 49) + i) (j - 1) d) ∧
      marchDay (100 * (n - 49) + i) j d - (if j = 1 then marchDay (100 * (n - 49) + i - 1) 12 d
        else marchDay (100 * (n - 49) + i) (j - 1) d) ≤ 31 := by
  unfold marchDay
  split
  · rename_i march
    rw [march, show (100 * (n - 49) + i + 4900) / 100 = n by omega]
    -- February ends a century only in a year that four divides.
    by_cases first : i = 0
    · omega
    · rw [show (100 * (n - 49) + i - 1 + 4900) / 100 = n by omega]
      omega
  · omega

theorem toTime_julian (low : 0 ≤ day) (high : day ≤ 49710) :
    toTime (day + jdOfEpoch) = day + 2440588 := by
  unfold toTime jdOfEpoch
  omega

/-- What `mktime` finds for a date of `gmtime_r` lies one month before it. -/
theorem gregorian_month_early (day : ℤ) (low : 0 ≤ day) (high : day ≤ 49710) :
    ∃ date lost, clockUtc2calendar .gregorian day = some date ∧ 28 ≤ lost ∧ lost ≤ 31 ∧
      clockCalendar2utc .gregorian date.year (date.month - 1) date.day = toTime (day + -lost) := by
  obtain ⟨n, i, j, d, n_low, n_high, i_low, i_high, j_low, j_high, date, number⟩ :=
    clockUtc2gregorian_spec (day + 2440588) (by omega) (by omega)
  obtain ⟨short, long⟩ := marchDay_previous (n := n) (j := j) (d := d) i_low i_high
  refine ⟨_, _, rfl, short, long, ?_⟩
  rw [toTime_julian low high, date, number]
  simp only [clockCalendar2utc]
  rw [clockCalendar2utcGregorian_eq (by omega) (by omega) (by omega)]
  congr 1
  unfold jdOfEpoch
  by_cases march : j = 1
  · rw [if_pos (by omega), if_pos march, show 100 * (n - 49) + i + j / 11 - 1 =
      100 * (n - 49) + i - 1 by omega, show j + 2 - 12 * (j / 11) - 1 + 10 = 12 by omega]
    omega
  by_cases turn : j = 11 ∨ j = 12
  · rw [if_pos (by omega), show 100 * (n - 49) + i + j / 11 - 1 = 100 * (n - 49) + i by omega,
      show j + 2 - 12 * (j / 11) - 1 + 10 = j - 1 by omega]
    omega
  rw [if_neg (by omega), show 100 * (n - 49) + i + j / 11 = 100 * (n - 49) + i by omega,
    show j + 2 - 12 * (j / 11) - 1 - 2 = j - 1 by omega]
  omega

theorem gregorian_injective (low : 0 ≤ day) (high : day ≤ 49710) (low' : 0 ≤ day')
    (high' : day' ≤ 49710)
    (same : clockUtc2calendar .gregorian day = clockUtc2calendar .gregorian day') : day = day' := by
  obtain ⟨n, i, j, d, -, -, i_low, i_high, j_low, j_high, date, number⟩ :=
    clockUtc2gregorian_spec (day + 2440588) (by omega) (by omega)
  obtain ⟨n', i', j', d', -, -, i_low', i_high', j_low', j_high', date', number'⟩ :=
    clockUtc2gregorian_spec (day' + 2440588) (by omega) (by omega)
  simp only [clockUtc2calendar, toTime_julian low high, toTime_julian low' high', date, date',
    Option.some.injEq, Date.mk.injEq] at same
  obtain ⟨year, month, days⟩ := same
  have same_month : j = j' := by omega
  subst same_month
  rw [show 100 * (n - 49) + i = 100 * (n' - 49) + i' by omega, days, number'] at number
  omega

/-! ## The simplified build -/

theorem clockIsleapyear_eq (low : 1970 ≤ year) (high : year ≤ 2120) :
    clockIsleapyear year = decide (year % 4 = 0 ∧ year ≠ 2100) := by
  unfold clockIsleapyear
  rw [Int.tmod_eq_emod_of_nonneg (by omega), Int.tmod_eq_emod_of_nonneg (by omega),
    Int.tmod_eq_emod_of_nonneg (by omega)]
  split
  · split
    · rw [decide_eq_decide]
      omega
    symm
    rw [decide_eq_false_iff_not]
    omega
  symm
  rw [decide_eq_true_iff]
  omega

/-- The length of a year, as `clock_isleapyear` has it. -/
def yearLength (value : ℤ) : ℤ := if clockIsleapyear (value + 1970) then 366 else 365

def yearStart (value : ℤ) : ℤ := 365 * value + (value + 1) / 4 - if 131 ≤ value then 1 else 0

theorem yearStart_succ (value : ℤ) (low : 0 ≤ value) (high : value ≤ 150) :
    yearStart (value + 1) = yearStart value + yearLength value := by
  unfold yearStart yearLength
  rw [clockIsleapyear_eq (by omega) (by omega)]
  simp only [decide_eq_true_eq]
  split <;> split <;> split <;> omega

theorem yearLoop_spec (fuel : ℕ) (value days : ℤ) (early : 0 ≤ value) (low : 0 ≤ days)
    (enough : days < 365 * fuel) (late : value + fuel ≤ 150) :
    ∃ year day, yearLoop fuel value days = some (year, day) ∧ value ≤ year ∧ year ≤ value + fuel ∧
      0 ≤ day ∧ day < yearLength year ∧ yearStart year + day = yearStart value + days := by
  induction fuel generalizing value days with
  | zero => omega
  | succ fuel ih =>
    have length : 365 ≤ yearLength value := by
      unfold yearLength
      split <;> omega
    have step := yearStart_succ value early (by omega)
    by_cases more : yearLength value ≤ days
    · obtain ⟨year, day, loop, after, before, low, high, start⟩ :=
        ih (value + 1) (days - yearLength value) (by omega) (by omega) (by omega)
          (by omega)
      refine ⟨year, day, ?_, by omega, by omega, low, high, by omega⟩
      rw [← loop, yearLoop]
      exact if_pos more
    · refine ⟨value, days, ?_, Int.le_refl _, by omega, low, by omega, rfl⟩
      exact if_neg more

theorem monthLoop_spec (fuel : ℕ) (min max days : ℤ) (leapyear : Bool) (order : min ≤ max)
    (width : max - min < 2 ^ fuel) (low : clockDaysbeforemonth min leapyear ≤ days)
    (high : days < clockDaysbeforemonth (max + 1) leapyear) :
    ∃ month, monthLoop (fuel + 1) min max days leapyear = some month ∧ min ≤ month ∧ month ≤ max ∧
      clockDaysbeforemonth month leapyear ≤ days ∧
      days < clockDaysbeforemonth (month + 1) leapyear := by
  induction fuel generalizing min max with
  | zero =>
    have one : max = min := by omega
    have middle : (min + max) / 2 = min := by omega
    subst one
    refine ⟨max, ?_, Int.le_refl _, Int.le_refl _, low, high⟩
    rw [monthLoop]
    simp only [middle]
    rw [if_pos high, if_neg (by omega)]
  | succ fuel ih =>
    rw [monthLoop]
    split
    · rename_i below
      split
      · rename_i left
        split
        · rename_i more
          obtain ⟨month, loop, after, before, start, last⟩ :=
            ih min ((min + max) / 2 - 1) (by omega) (by omega) low
              (by rw [Int.sub_add_cancel]; exact left)
          exact ⟨month, loop, after, by omega, start, last⟩
        -- `min` is the month before the midpoint, or the midpoint itself was not too late.
        refine ⟨min, rfl, Int.le_refl _, order, low, ?_⟩
        by_cases middle : (min + max) / 2 = min
        · rw [middle] at left
          omega
        · rw [show min + 1 = (min + max) / 2 by omega]
          exact left
      · exact ⟨(min + max) / 2, rfl, by omega, by omega, by omega, below⟩
    rename_i right
    split
    · obtain ⟨month, loop, after, before, start, last⟩ :=
        ih ((min + max) / 2 + 1) max (by omega) (by omega) (by omega) high
      exact ⟨month, loop, by omega, before, start, last⟩
    by_cases middle : (min + max) / 2 = max
    · rw [middle] at right
      omega
    refine ⟨(min + max) / 2 + 1, rfl, by omega, by omega, by omega, ?_⟩
    rw [show (min + max) / 2 + 1 = max by omega]
    exact high

/-- The day `mktime` finds for the date of a day: the next one, while the four-year periods are a
day ahead of `clock_isleapyear`. -/
def foundDay (day : ℤ) : ℤ := if 47847 ≤ day ∧ day ≤ 48212 then day + 1 else day

theorem simple_found (day : ℤ) (low : 0 ≤ day) (high : day ≤ 49710) :
    ∃ date, clockUtc2calendar .simple day = some date ∧
      clockCalendar2utc .simple date.year (date.month - 1) date.day = foundDay day := by
  obtain ⟨year, rest, years, after, before, rest_low, rest_high, start⟩ :=
    yearLoop_spec 5 (day / 1461 * 4) (day - day / 1461 * 1461) (by omega) (by omega)
      (by omega) (by omega)
  obtain ⟨month, months, month_low, month_high, first, last⟩ :=
    monthLoop_spec 4 0 11 rest (clockIsleapyear (year + 1970)) (by omega) (by omega) rest_low (by
      revert rest_high
      unfold yearLength
      cases clockIsleapyear (year + 1970) <;> exact id)
  refine ⟨⟨1970 + year, month + 1,
    rest - clockDaysbeforemonth month (clockIsleapyear (year + 1970)) + 1⟩, ?_, ?_⟩
  · simp only [clockUtc2calendar, clockUtc2calendarSimple]
    rw [Int.tdiv_eq_ediv_of_nonneg low]
    simp only [show (4 * 365 + 1 : ℤ) = 1461 from rfl, years, months, bind, Option.bind, pure]
  simp only [clockCalendar2utc, clockCalendar2utcSimple, Int.add_sub_cancel]
  have found : 365 * year + (year + 1) / 4 + rest = foundDay day := by
    have length := yearStart_succ year (by omega) (by omega)
    revert start length
    unfold yearStart foundDay
    split <;> split <;> split <;> split <;> omega
  have small : 0 ≤ foundDay day ∧ foundDay day < 2 ^ 32 := by
    unfold foundDay
    split <;> omega
  rw [show 1970 + year = year + 1970 by omega, toTime_sum,
    ← Int.emod_eq_of_lt small.1 small.2, ← found]
  congr 1
  omega

theorem simple_collision (low : 0 ≤ day) (high : day ≤ 49710) (low' : 0 ≤ day')
    (high' : day' ≤ 49710) :
    clockUtc2calendar .simple day = clockUtc2calendar .simple day' ↔
      day = day' ∨ (day = 48212 ∧ day' = 48213) ∨ (day = 48213 ∧ day' = 48212) := by
  constructor
  · intro same
    obtain ⟨date, calendar, found⟩ := simple_found day low high
    obtain ⟨date', calendar', found'⟩ := simple_found day' low' high'
    rw [calendar, calendar', Option.some.injEq] at same
    rw [same, found'] at found
    revert found
    unfold foundDay
    split <;> split <;> omega
  rintro (same | ⟨first, second⟩ | ⟨first, second⟩)
  · rw [same]
  all_goals
    rw [first, second]
    decide

/-! ## The round trip -/

theorem mktime_of_found {build : Build} {t shift : ℤ} {date : Date}
    (calendar : clockUtc2calendar build (t / 86400) = some date)
    (found : clockCalendar2utc build date.year (date.month - 1) date.day =
      toTime (t / 86400 + shift)) :
    ∃ tm, gmtimeR build t = some tm ∧ mktime build tm = toTime (t + 86400 * shift) := by
  simp only [gmtimeR, calendar, bind, Option.bind, pure]
  refine ⟨_, rfl, ?_⟩
  simp only [mktime, Int.sub_add_cancel, found]
  unfold toTime
  omega

/-- A Gregorian build never gets the time back: `mktime` passes months from 0 to a function that
takes them from 1. The simplified build is a day late in 2101, and gives 2102-01-01 twice. -/
theorem mktime_gmtimeR_iff (build : Build) {t u : ℤ} (low : 0 ≤ t) (high : t < 2 ^ 32)
    (low' : 0 ≤ u) (high' : u < 2 ^ 32) :
    (∃ tm, gmtimeR build t = some tm ∧ (mktime build tm = t ↔
      build = .simple ∧ ¬(47847 ≤ t / 86400 ∧ t / 86400 ≤ 48212))) ∧
    (clockUtc2calendar build (t / 86400) = clockUtc2calendar build (u / 86400) ↔
      t / 86400 = u / 86400 ∨ build = .simple ∧
        ((t / 86400 = 48212 ∧ u / 86400 = 48213) ∨ (t / 86400 = 48213 ∧ u / 86400 = 48212))) := by
  cases build with
  | gregorian =>
    obtain ⟨date, lost, calendar, short, long, found⟩ :=
      gregorian_month_early (t / 86400) (by omega) (by omega)
    obtain ⟨tm, broken, time⟩ := mktime_of_found calendar found
    refine ⟨⟨tm, broken, ?_⟩, ?_⟩
    · rw [time]
      simp only [reduceCtorEq, false_and, iff_false]
      unfold toTime
      omega
    simp only [reduceCtorEq, false_and, or_false]
    refine ⟨gregorian_injective (by omega) (by omega) (by omega) (by omega), fun same => ?_⟩
    rw [same]
  | simple =>
    obtain ⟨date, calendar, found⟩ := simple_found (t / 86400) (by omega) (by omega)
    have shift : foundDay (t / 86400) =
        toTime (t / 86400 + if 47847 ≤ t / 86400 ∧ t / 86400 ≤ 48212 then 1 else 0) := by
      unfold foundDay toTime
      split <;> omega
    obtain ⟨tm, broken, time⟩ := mktime_of_found calendar (found.trans shift)
    refine ⟨⟨tm, broken, ?_⟩, ?_⟩
    · rw [time]
      simp only [true_and]
      unfold toTime
      split <;> omega
    · simp only [true_and]
      exact simple_collision (by omega) (by omega) (by omega) (by omega)

theorem mktime_gmtimeR_iff_start :
    (∃ tm, gmtimeR .simple 1104537600 = some tm ∧ mktime .simple tm = 1104537600) ∧
      clockUtc2calendar .simple (1104537600 / 86400) ≠
        clockUtc2calendar .simple (4165516800 / 86400) := by
  obtain ⟨⟨tm, broken, time⟩, distinct⟩ :=
    mktime_gmtimeR_iff .simple (t := 1104537600) (u := 4165516800) (by decide) (by decide)
      (by decide) (by decide)
  exact ⟨⟨tm, broken, time.mpr (by decide)⟩, fun same => absurd (distinct.mp same) (by decide)⟩

/-- The first second of 1970 becomes the first of December before it, 2101-01-01 becomes the second
of January, and 2102-01-01 is the date of two days. -/
theorem round_trip_fails :
    (gmtimeR .gregorian 0).map (mktime .gregorian) = some (2 ^ 32 - 31 * 86400) ∧
      (gmtimeR .simple (47847 * 86400)).map (mktime .simple) = some (47848 * 86400) ∧
      clockUtc2calendar .simple 48212 = some ⟨2102, 1, 1⟩ ∧
      clockUtc2calendar .simple 48213 = some ⟨2102, 1, 1⟩ := by
  decide

end NuttxRtos.Calendar
