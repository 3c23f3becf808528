import Fishnet.Base.Date

/-!
# UTC: seconds and broken-down time

`toUtcTime` splits a number of seconds into days and a time of day and takes the date from `Date`;
`fromUtcTime` puts them together again. A `time_t` has 64 bits and a number of days 32. The division
truncates, so a negative remainder is mended by one day.

Every time whose day has a number that `getYearMonthDay` can take is converted, whatever its sign,
and the conversions are inverse to each other there.

## Main results

* `TimeZone.utcTime_round_trip`: both round trips, and what the fields say.
-/

namespace Fishnet

open CInt CivilDate

/-- `struct tm`. -/
structure Tm where
  tm_sec : ℤ
  tm_min : ℤ
  tm_hour : ℤ
  tm_mday : ℤ
  tm_mon : ℤ
  tm_year : ℤ
  tm_wday : ℤ
  tm_yday : ℤ
  tm_isdst : ℤ
  tm_gmtoff : ℤ
  /-- The bytes before the terminating zero. -/
  tm_zone : Bytes
  deriving DecidableEq, Repr

namespace Tm

/-- After `memZero`. -/
def zero : Tm := ⟨0, 0, 0, 0, 0, 0, 0, 0, 0, 0, []⟩

/-- The date of a broken-down time. -/
def date (t : Tm) : CivilDate := ⟨t.tm_year + 1900, t.tm_mon + 1, t.tm_mday⟩

end Tm

def kSecondsPerDay : CInt 32 := 24 * 60 * 60

def fillHMS (seconds : ℕ) (utc : Tm) : Tm :=
  let minutes := seconds / 60
  { utc with
    tm_sec := (seconds % 60 : ℕ)
    tm_min := (minutes % 60 : ℕ)
    tm_hour := (minutes / 60 : ℕ) }

namespace TimeZone

/-- The second in its day, and the day: the variables `seconds` and `days` of `toUtcTime`. -/
def secondsAndDays (secondsSinceEpoch : CInt 64) : Checked (ℤ × ℤ) := do
  let seconds ← (cast (secondsSinceEpoch % cast kSecondsPerDay) : CInt 32).run
  let days ← (cast (secondsSinceEpoch / cast kSecondsPerDay) : CInt 32).run
  if seconds < 0 then
    return (← (ok seconds + kSecondsPerDay).run, ← (ok days - 1 : CInt 32).run)
  else
    return (seconds, days)

def toUtcTime (secondsSinceEpoch : CInt 64) (yday : Bool) : Checked Tm := do
  let (seconds, days) ← secondsAndDays secondsSinceEpoch
  -- `fillHMS` takes an unsigned number
  let utc := fillHMS (seconds % 2 ^ 32).toNat { Tm.zero with tm_zone := "GMT".toUTF8.toList }
  let date ← Date.ofNumber (ok days + Date.kJulianDayOf1970_01_01)
  let ymd ← date.yearMonthDay
  let tm_year ← (ok ymd.year - 1900 : CInt 32).run
  let tm_mon ← (ok ymd.month - 1 : CInt 32).run
  let tm_wday ← date.weekDay.run
  let utc := { utc with tm_year, tm_mon, tm_mday := ymd.day, tm_wday }
  if yday then
    let startOfYear ← Date.ofYearMonthDay (ok ymd.year) 1 1
    let tm_yday ← (date.julianDayNumber - startOfYear.julianDayNumber).run
    return { utc with tm_yday }
  else
    return utc

/-- `fromUtcTime(year, month, day, hour, minute, seconds)`. -/
def fromFields (year month day hour minute seconds : CInt 32) : Checked ℤ := do
  let date ← Date.ofYearMonthDay year month day
  let secondsInDay := hour * 3600 + minute * 60 + seconds
  let days : CInt 64 := cast (date.julianDayNumber - Date.kJulianDayOf1970_01_01)
  (days * cast kSecondsPerDay + cast secondsInDay).run

/-- `fromUtcTime(utc)`. -/
def fromUtcTime (utc : Tm) : Checked ℤ :=
  fromFields (ok utc.tm_year + 1900) (ok utc.tm_mon + 1) (ok utc.tm_mday) (ok utc.tm_hour)
    (ok utc.tm_min) (ok utc.tm_sec)

/-! ## Days and seconds -/

theorem kSecondsPerDay_eq : kSecondsPerDay = ok 86400 := rfl

theorem secondsAndDays_eq {t : ℤ} (h0 : -2147483648 ≤ t / 86400) (h1 : t / 86400 < 2147483647) :
    secondsAndDays (ok t) = .ok (t % 86400, t / 86400) := by
  obtain ⟨hneg, hpos⟩ := floor_of_trunc (x := t) (n := 86400) (by norm_num)
  have hmod0 : 0 ≤ t % 86400 := by omega
  have hmod1 : t % 86400 < 86400 := by omega
  obtain ⟨r, hr⟩ : ∃ r, t.tmod 86400 = r := ⟨_, rfl⟩
  obtain ⟨q, hq⟩ : ∃ q, t.tdiv 86400 = q := ⟨_, rfl⟩
  rw [hr, hq] at hneg hpos
  have hday : (cast kSecondsPerDay : CInt 64) = ok 86400 := rfl
  have hseconds : (cast (ok t % ok 86400 : CInt 64) : CInt 32) = ok r := by
    rw [ok_tmod (by norm_num) (by rw [fits64]; omega), hr]
    exact cast_ok (by rw [fits32]; omega) (by norm_num)
  have hdays : (cast (ok t / ok 86400 : CInt 64) : CInt 32) = ok q := by
    rw [ok_tdiv (by norm_num) (by rw [fits64]; omega), hq]
    exact cast_ok (by rw [fits32]; omega) (by norm_num)
  simp only [secondsAndDays, hday, hseconds, hdays, run_ok, ok_bind]
  split_ifs with h
  · obtain ⟨hr', hq'⟩ := hneg h
    simp (disch := (try rw [fits32]); omega) only [kSecondsPerDay_eq, ofNat_eq, ok_add, ok_sub,
      run_ok]
    rw [hr', hq']
    rfl
  · obtain ⟨rfl, rfl⟩ := hpos h
    rfl

theorem fillHMS_eq {s : ℤ} (h0 : 0 ≤ s) (h1 : s < 86400) (utc : Tm) :
    fillHMS (s % 2 ^ 32).toNat utc =
      { utc with tm_sec := s % 60, tm_min := s / 60 % 60, tm_hour := s / 3600 } := by
  have hs : s % 2 ^ 32 = s := by omega
  obtain ⟨n, rfl⟩ : ∃ n : ℕ, s = n := ⟨s.toNat, by omega⟩
  rw [hs, Int.toNat_natCast, fillHMS]
  simp only [Tm.mk.injEq, and_true]
  omega

theorem year_bounds {d : CivilDate} (h : d.Valid) (h0 : 0 ≤ d.dayNumber)
    (h1 : d.dayNumber ≤ 536838867) : -4799 ≤ d.year ∧ d.year ≤ 4995201 := by
  obtain ⟨hlow, hhigh⟩ := Date.marchYear_bounds h h0 h1
  obtain ⟨hmonth0, hmonth1, -, -⟩ := h
  unfold CivilDate.marchYear at hlow hhigh
  omega

theorem startOfYear_eq {d : CivilDate} (h : d.Valid) (h0 : 0 ≤ d.dayNumber)
    (h1 : d.dayNumber ≤ 536838867) :
    Date.ofYearMonthDay (ok d.year) (ok 1) (ok 1) =
      .ok ⟨CivilDate.dayNumber ⟨d.year, 1, 1⟩⟩ := by
  obtain ⟨hlow, hhigh⟩ := year_bounds h h0 h1
  have hvalid : CivilDate.Valid ⟨d.year, 1, 1⟩ :=
    ⟨le_refl _, by norm_num, le_refl _, daysInMonth_pos _ _⟩
  refine Date.ofYearMonthDay_eq (d := ⟨d.year, 1, 1⟩) (Date.numberOf_eq hvalid ?_ ?_)
  · simp only [CivilDate.marchYear]
    omega
  · simp only [CivilDate.marchYear]
    omega

/-- The result of `toUtcTime`. -/
def utcOf (t : ℤ) (yday : Bool) : Tm :=
  let d := CivilDate.ofDayNumber (t / 86400 + 2440588)
  { tm_sec := t % 86400 % 60
    tm_min := t % 86400 / 60 % 60
    tm_hour := t % 86400 / 3600
    tm_mday := d.day
    tm_mon := d.month - 1
    tm_year := d.year - 1900
    tm_wday := (t / 86400 + 4) % 7
    tm_yday := if yday then d.yearDay else 0
    tm_isdst := 0
    tm_gmtoff := 0
    tm_zone := "GMT".toUTF8.toList }

theorem toUtcTime_eq {t : ℤ} (h0 : 0 ≤ t / 86400 + 2440588)
    (h1 : t / 86400 + 2440588 ≤ 536838867) (yday : Bool) :
    toUtcTime (ok t) yday = .ok (utcOf t yday) := by
  obtain ⟨j, hj⟩ : ∃ j, t / 86400 + 2440588 = j := ⟨_, rfl⟩
  obtain ⟨d, hd⟩ : ∃ d, CivilDate.ofDayNumber j = d := ⟨_, rfl⟩
  have hvalid : d.Valid := hd ▸ valid_ofDayNumber j
  have hnumber : d.dayNumber = j := hd ▸ dayNumber_ofDayNumber j
  have hsplit := secondsAndDays_eq (t := t) (by omega) (by omega)
  have hhms := fillHMS_eq (s := t % 86400) (by omega) (by omega)
  have hdate : Date.ofNumber (ok (t / 86400) + Date.kJulianDayOf1970_01_01) = .ok ⟨j⟩ := by
    rw [Date.kJulianDayOf1970_01_01_eq, ok_add (by rw [fits32]; omega), hj]
    rfl
  have hymd : Date.yearMonthDay ⟨j⟩ = .ok d := by
    rw [← hd, Date.yearMonthDay]
    exact Date.getYearMonthDay_eq (j := j) (by omega) (by omega)
  have hwday : (Date.mk j).weekDay = ok ((t / 86400 + 4) % 7) := by
    rw [Date.weekDay_eq (by omega) (by omega), ok_inj]
    omega
  obtain ⟨hyear0, hyear1⟩ := year_bounds hvalid (by omega) (by omega)
  have hstart := startOfYear_eq hvalid (by omega) (by omega)
  have hyday := hvalid.yearDay_eq
  obtain ⟨hmonth0, hmonth1, -, -⟩ := hvalid
  simp (disch := (try rw [fits32]); omega) only [toUtcTime, utcOf, hsplit, hhms, hdate, hymd,
    hwday, hj, hd, ok_bind, ofNat_eq, ok_sub, run_ok]
  cases yday with
  | false => rfl
  | true =>
    have hfits : Fits 32 (j - CivilDate.dayNumber ⟨d.year, 1, 1⟩) := by
      rw [fits32]
      simp only [CivilDate.dayNumber, CivilDate.daysBeforeMonth, CivilDate.daysBeforeYear,
        CivilDate.marchMonth, CivilDate.marchYear]
      omega
    rw [hnumber] at hyday
    simp only [hstart, hyday, Date.julianDayNumber, ok_sub hfits, ok_bind, run_ok,
      if_true]
    rfl

theorem date_utcOf (t : ℤ) (yday : Bool) :
    (utcOf t yday).date = CivilDate.ofDayNumber (t / 86400 + 2440588) := by
  simp [utcOf, Tm.date]

/-- `fromUtcTime` puts the day and the time of day together. -/
theorem fromFields_eq {d : CivilDate} {hour minute seconds : ℤ} (h : d.Valid)
    (h0 : 0 ≤ d.dayNumber) (h1 : d.dayNumber ≤ 536838867)
    (hhour : 0 ≤ hour ∧ hour ≤ 23) (hminute : 0 ≤ minute ∧ minute ≤ 59)
    (hseconds : 0 ≤ seconds ∧ seconds ≤ 59) :
    fromFields (ok d.year) (ok d.month) (ok d.day) (ok hour) (ok minute) (ok seconds) =
      .ok ((d.dayNumber - 2440588) * 86400 + (hour * 3600 + minute * 60 + seconds)) := by
  have hdate := Date.ofYearMonthDay_eq (Date.numberOf_of_dayNumber h h0 h1)
  have hday : (cast kSecondsPerDay : CInt 64) = ok 86400 := rfl
  have hdays : (cast (ok d.dayNumber - ok 2440588 : CInt 32) : CInt 64) =
      ok (d.dayNumber - 2440588) := by
    rw [ok_sub (by rw [fits32]; omega)]
    exact cast_ok (by rw [fits64]; omega) (by norm_num)
  have hinDay : (cast (ok hour * 3600 + ok minute * 60 + ok seconds : CInt 32) : CInt 64) =
      ok (hour * 3600 + minute * 60 + seconds) := by
    simp (disch := (try rw [fits32]); omega) only [ofNat_eq, ok_mul, ok_add]
    exact cast_ok (by rw [fits64]; omega) (by norm_num)
  simp only [fromFields, hdate, ok_bind, Date.julianDayNumber,
    Date.kJulianDayOf1970_01_01_eq, hday, hdays, hinDay]
  simp (disch := rw [fits64]; omega) only [ok_mul, ok_add, run_ok]

theorem fromUtcTime_eq {utc : Tm} (h : utc.date.Valid) (h0 : 0 ≤ utc.date.dayNumber)
    (h1 : utc.date.dayNumber ≤ 536838867) (hhour : 0 ≤ utc.tm_hour ∧ utc.tm_hour ≤ 23)
    (hminute : 0 ≤ utc.tm_min ∧ utc.tm_min ≤ 59) (hseconds : 0 ≤ utc.tm_sec ∧ utc.tm_sec ≤ 59) :
    fromUtcTime utc = .ok ((utc.date.dayNumber - 2440588) * 86400 +
      (utc.tm_hour * 3600 + utc.tm_min * 60 + utc.tm_sec)) := by
  obtain ⟨hyear0, hyear1⟩ := year_bounds h h0 h1
  have hmonth0 := h.1
  have hmonth1 := h.2.1
  simp only [Tm.date] at hyear0 hyear1 hmonth0 hmonth1
  rw [← fromFields_eq h h0 h1 hhour hminute hseconds, fromUtcTime]
  simp (disch := (try rw [fits32]); omega) only [ofNat_eq, ok_add, Tm.date]

theorem timeOfDay_eq (s : ℤ) : s / 3600 * 3600 + s / 60 % 60 * 60 + s % 60 = s := by
  omega

theorem seconds_utcOf (t : ℤ) (yday : Bool) :
    ((utcOf t yday).date.dayNumber - 2440588) * 86400 +
      ((utcOf t yday).tm_hour * 3600 + (utcOf t yday).tm_min * 60 + (utcOf t yday).tm_sec) = t := by
  have htime := timeOfDay_eq (t % 86400)
  rw [date_utcOf, dayNumber_ofDayNumber]
  simp only [utcOf, htime]
  omega

theorem utcOf_fields (t : ℤ) (yday : Bool) :
    (0 ≤ (utcOf t yday).tm_sec ∧ (utcOf t yday).tm_sec ≤ 59) ∧
      (0 ≤ (utcOf t yday).tm_min ∧ (utcOf t yday).tm_min ≤ 59) ∧
      (0 ≤ (utcOf t yday).tm_hour ∧ (utcOf t yday).tm_hour ≤ 23) ∧ (utcOf t yday).date.Valid := by
  refine ⟨?_, ?_, ?_, ?_⟩
  · simp only [utcOf]
    omega
  · simp only [utcOf]
    omega
  · simp only [utcOf]
    omega
  · rw [date_utcOf]
    exact valid_ofDayNumber _

/-! ## Main result -/

/-- **UTC time round trip.** A time whose day `getYearMonthDay` can take has a broken-down form
with every field in its range, and is recovered from it. A valid date and time of day in that
range is the broken-down form of the time that `fromUtcTime` makes of it. -/
theorem utcTime_round_trip :
    (∀ t : ℤ, 0 ≤ t / 86400 + 2440588 → t / 86400 + 2440588 ≤ 536838867 →
      (∃ utc, toUtcTime (ok t) true = .ok utc ∧
        (0 ≤ utc.tm_sec ∧ utc.tm_sec ≤ 59) ∧ (0 ≤ utc.tm_min ∧ utc.tm_min ≤ 59) ∧
        (0 ≤ utc.tm_hour ∧ utc.tm_hour ≤ 23) ∧ utc.date.Valid ∧
        utc.tm_wday = (t / 86400 + 4) % 7 ∧ utc.tm_yday = utc.date.yearDay) ∧
      ∀ yday, ∃ utc, toUtcTime (ok t) yday = .ok utc ∧ fromUtcTime utc = .ok t) ∧
    ∀ (d : CivilDate) (hour minute seconds : ℤ), d.Valid → 0 ≤ d.dayNumber →
      d.dayNumber ≤ 536838867 → 0 ≤ hour ∧ hour ≤ 23 → 0 ≤ minute ∧ minute ≤ 59 →
      0 ≤ seconds ∧ seconds ≤ 59 →
      ∃ t, fromFields (ok d.year) (ok d.month) (ok d.day) (ok hour) (ok minute) (ok seconds) =
          .ok t ∧
        ∀ yday, ∃ utc, toUtcTime (ok t) yday = .ok utc ∧ utc.date = d ∧ utc.tm_hour = hour ∧
          utc.tm_min = minute ∧ utc.tm_sec = seconds := by
  refine ⟨fun t h0 h1 ↦ ⟨?_, fun yday ↦ ?_⟩, ?_⟩
  · obtain ⟨hsec, hmin, hhour, hvalid⟩ := utcOf_fields t true
    refine ⟨_, toUtcTime_eq h0 h1 true, hsec, hmin, hhour, hvalid, rfl, ?_⟩
    rw [date_utcOf]
    rfl
  · obtain ⟨hsec, hmin, hhour, hvalid⟩ := utcOf_fields t yday
    refine ⟨_, toUtcTime_eq h0 h1 yday, ?_⟩
    have hnumber : (utcOf t yday).date.dayNumber = t / 86400 + 2440588 := by
      rw [date_utcOf, dayNumber_ofDayNumber]
    rw [fromUtcTime_eq hvalid (by omega) (by omega) hhour hmin hsec, seconds_utcOf]
  · intro d hour minute seconds hvalid h0 h1 hhour hminute hseconds
    refine ⟨_, fromFields_eq hvalid h0 h1 hhour hminute hseconds, fun yday ↦ ?_⟩
    obtain ⟨s, hs⟩ : ∃ s, hour * 3600 + minute * 60 + seconds = s := ⟨_, rfl⟩
    rw [hs]
    have hday : ((d.dayNumber - 2440588) * 86400 + s) / 86400 + 2440588 = d.dayNumber := by omega
    have hmod : ((d.dayNumber - 2440588) * 86400 + s) % 86400 = s := by omega
    refine ⟨_, toUtcTime_eq (by omega) (by omega) yday, ?_, ?_, ?_, ?_⟩
    · rw [date_utcOf, hday, ofDayNumber_dayNumber hvalid]
    · simp only [utcOf, hmod]
      omega
    · simp only [utcOf, hmod]
      omega
    · simp only [utcOf, hmod]
      omega

/-- One second before the epoch. -/
theorem utcTime_round_trip_before_epoch :
    ∃ utc, toUtcTime (ok (-1)) false = .ok utc ∧ fromUtcTime utc = .ok (-1) :=
  (utcTime_round_trip.1 (-1) (by decide) (by decide)).2 false

example : toUtcTime (ok (-1)) false =
    .ok ⟨59, 59, 23, 31, 11, 69, 3, 0, 0, 0, "GMT".toUTF8.toList⟩ := by
  decide +kernel

end TimeZone

end Fishnet
