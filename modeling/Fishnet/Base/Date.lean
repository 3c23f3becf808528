import Fishnet.Library.MachineInt
import Fishnet.Library.Calendar

/-!
# `Date`: days by number

A `Date` holds a Julian day number. Two closed formulas convert between the number and a year, a
month and a day, in `int` arithmetic with the truncating division of C. They are written here as the
source has them, over `CInt 32`, so that a result is also a proof that nothing overflowed.

On their ranges the formulas compute `CivilDate.dayNumber` and `CivilDate.ofDayNumber`, which are
given by the same chains of divisions rounded down. What the calendar says of those is then said of
the code. Truncation and rounding down differ on negative numbers only, and these do not occur: a
year after `-4800` has a non-negative number in the code, and so has a day that is not negative.

## Main results

* `Date.julianDayNumber_counts_days`: the next day has the next number.
* `Date.yearMonthDay_bijection`: the two conversions are inverse to each other.
-/

namespace Fishnet

open CInt CivilDate

namespace Date

/-- `struct YearMonthDay`. -/
abbrev YearMonthDay := CivilDate

def getJulianDayNumber (year month day : CInt 32) : CInt 32 :=
  let a := (14 - month) / 12
  let y := year + 4800 - a
  let m := month + 12 * a - 3
  day + (153 * m + 2) / 5 + y * 365 + y / 4 - y / 100 + y / 400 - 32045

def getYearMonthDay (julianDayNumber : CInt 32) : Checked YearMonthDay :=
  let a := julianDayNumber + 32044
  let b := (4 * a + 3) / 146097
  let c := a - b * 146097 / 4
  let d := (4 * c + 3) / 1461
  let e := c - 1461 * d / 4
  let m := (5 * e + 2) / 153
  do
    let day ← (e - (153 * m + 2) / 5 + 1).run
    let month ← (m + 3 - 12 * (m / 10)).run
    let year ← (b * 100 + d - 4800 + m / 10).run
    return ⟨year, month, day⟩

def kDaysPerWeek : CInt 32 := 7

def kJulianDayOf1970_01_01 : CInt 32 := getJulianDayNumber 1970 1 1

end Date

/-- `class Date`. -/
structure Date where
  julianDayNumber_ : ℤ
  deriving DecidableEq, Repr

namespace Date

/-- `Date(int julianDayNum)`. -/
def ofNumber (julianDayNum : CInt 32) : Checked Date := do
  return ⟨← julianDayNum.run⟩

/-- `Date(int y, int m, int d)`. -/
def ofYearMonthDay (y m d : CInt 32) : Checked Date :=
  ofNumber (getJulianDayNumber y m d)

def julianDayNumber (date : Date) : CInt 32 := ok date.julianDayNumber_

def yearMonthDay (date : Date) : Checked YearMonthDay :=
  getYearMonthDay (ok date.julianDayNumber_)

def weekDay (date : Date) : CInt 32 := (ok date.julianDayNumber_ + 1) % kDaysPerWeek

/-- `getJulianDayNumber` of a date. -/
def numberOf (d : CivilDate) : CInt 32 := getJulianDayNumber (ok d.year) (ok d.month) (ok d.day)

/-! ## The formulas within their ranges -/

theorem numberOf_eq {d : CivilDate} (h : d.Valid) (hlow : 0 ≤ d.marchYear)
    (hhigh : d.marchYear ≤ 5000000) : numberOf d = ok d.dayNumber := by
  obtain ⟨h1, h2, h3, h4⟩ := h
  have h31 := h4.trans (daysInMonth_le _ _)
  simp only [CivilDate.dayNumber, CivilDate.daysBeforeMonth, CivilDate.daysBeforeYear,
    CivilDate.marchYear, CivilDate.marchMonth] at hlow hhigh ⊢
  simp (disch := (try rw [fits32]); omega) only [numberOf, getJulianDayNumber, ofNat_eq, ok_add,
    ok_sub, ok_mul, ok_div]
  rw [ok_inj]
  ring

/-- What the formula returns, for any year. -/
theorem numberOf_evals {d : CivilDate} (h : d.Valid) :
    Evals (numberOf d)
      (d.day + CivilDate.daysBeforeMonth d.marchMonth + d.marchYear * 365 + d.marchYear.tdiv 4 -
        d.marchYear.tdiv 100 + d.marchYear.tdiv 400 - 32045) := by
  obtain ⟨h1, h2, -, -⟩ := h
  have ha : (14 - d.month) / 12 = (14 - d.month).tdiv 12 :=
    (Int.tdiv_eq_ediv_of_nonneg (by omega)).symm
  have hm : CivilDate.daysBeforeMonth d.marchMonth = (153 * d.marchMonth + 2).tdiv 5 := by
    refine (Int.tdiv_eq_ediv_of_nonneg ?_).symm
    unfold CivilDate.marchMonth
    omega
  rw [hm]
  unfold CivilDate.marchYear CivilDate.marchMonth
  rw [ha]
  have va := ((evals_ofNat (w := 32) 14).sub (evals_ok d.month)).div (evals_ofNat 12)
  have vy := ((evals_ok d.year).add (evals_ofNat 4800)).sub va
  have vm := ((evals_ok d.month).add ((evals_ofNat 12).mul va)).sub (evals_ofNat 3)
  have vmonth := (((evals_ofNat 153).mul vm).add (evals_ofNat 2)).div (evals_ofNat 5)
  exact ((((((evals_ok d.day).add vmonth).add (vy.mul (evals_ofNat 365))).add
    (vy.div (evals_ofNat 4))).sub (vy.div (evals_ofNat 100))).add
    (vy.div (evals_ofNat 400))).sub (evals_ofNat 32045)

theorem getYearMonthDay_eq {j : ℤ} (h0 : 0 ≤ j) (h1 : j ≤ 536838867) :
    getYearMonthDay (ok j) = .ok (CivilDate.ofDayNumber j) := by
  obtain ⟨a, ha⟩ : ∃ a, a = j + 32044 := ⟨_, rfl⟩
  obtain ⟨b, hb⟩ : ∃ b, b = CivilDate.centuryOf a := ⟨_, rfl⟩
  obtain ⟨c, hc⟩ : ∃ c, c = CivilDate.dayOfCentury a := ⟨_, rfl⟩
  obtain ⟨d, hd⟩ : ∃ d, d = CivilDate.yearOfCentury c := ⟨_, rfl⟩
  obtain ⟨e, he⟩ : ∃ e, e = CivilDate.dayOfYear c := ⟨_, rfl⟩
  obtain ⟨m, hm⟩ : ∃ m, m = CivilDate.monthOf e := ⟨_, rfl⟩
  obtain ⟨hc0, hc1, -⟩ := hc ▸ dayOfCentury_bounds a
  obtain ⟨hd0, hd1⟩ := hd ▸ yearOfCentury_bounds hc0 hc1
  obtain ⟨he0, he1, -⟩ := he ▸ dayOfYear_bounds c
  have hdate : CivilDate.ofDayNumber j =
      ⟨b * 100 + d - 4800 + m / 10, m + 3 - 12 * (m / 10), e - (153 * m + 2) / 5 + 1⟩ := by
    subst ha hb hc hd he hm
    rfl
  rw [CivilDate.centuryOf] at hb
  rw [CivilDate.dayOfCentury, CivilDate.centuryOf, ← hb] at hc
  rw [CivilDate.yearOfCentury] at hd
  rw [CivilDate.dayOfYear, CivilDate.yearOfCentury, ← hd] at he
  rw [CivilDate.monthOf] at hm
  -- the values of the variables, in the order in which the code computes them
  have va : (ok j + 32044 : CInt 32) = ok a := by
    simp (disch := (try rw [fits32]); omega) only [ofNat_eq, ok_add, ha]
  have vb : ((4 * ok a + 3) / 146097 : CInt 32) = ok b := by
    simp (disch := (try rw [fits32]); omega) only [ofNat_eq, ok_add, ok_mul, ok_div, hb]
  have vc : (ok a - ok b * 146097 / 4 : CInt 32) = ok c := by
    simp (disch := (try rw [fits32]); omega) only [ofNat_eq, ok_sub, ok_mul, ok_div, hc]
  have vd : ((4 * ok c + 3) / 1461 : CInt 32) = ok d := by
    simp (disch := (try rw [fits32]); omega) only [ofNat_eq, ok_add, ok_mul, ok_div, hd]
  have ve : (ok c - 1461 * ok d / 4 : CInt 32) = ok e := by
    simp (disch := (try rw [fits32]); omega) only [ofNat_eq, ok_sub, ok_mul, ok_div, he]
  have vm : ((5 * ok e + 2) / 153 : CInt 32) = ok m := by
    simp (disch := (try rw [fits32]); omega) only [ofNat_eq, ok_add, ok_mul, ok_div, hm]
  rw [hdate]
  simp only [getYearMonthDay, va, vb, vc, vd, ve, vm]
  simp (disch := (try rw [fits32]); omega) only [ofNat_eq, ok_add, ok_sub, ok_mul, ok_div, run_ok]
  rfl

/-- A day number in the range of `getYearMonthDay` belongs to a year in the range of
`getJulianDayNumber`. -/
theorem marchYear_bounds {d : CivilDate} (h : d.Valid) (h0 : 0 ≤ d.dayNumber)
    (h1 : d.dayNumber ≤ 536838867) : 1 ≤ d.marchYear ∧ d.marchYear ≤ 5000000 := by
  have hday := d.dayNumber_eq_marchDay
  obtain ⟨he0, he1, -⟩ := h.marchDay
  unfold CivilDate.daysBeforeYear at hday
  omega

theorem numberOf_of_dayNumber {d : CivilDate} (h : d.Valid) (h0 : 0 ≤ d.dayNumber)
    (h1 : d.dayNumber ≤ 536838867) : numberOf d = ok d.dayNumber := by
  obtain ⟨hlow, hhigh⟩ := marchYear_bounds h h0 h1
  exact numberOf_eq h (by omega) hhigh

/-- Before `-4800`, where truncation is not rounding down, the formula returns negative numbers. -/
theorem marchYear_nonneg {d : CivilDate} {j : ℤ} (h : d.Valid) (h0 : 0 ≤ j)
    (hj : numberOf d = ok j) : 0 ≤ d.marchYear := by
  have hvalue := numberOf_evals h j hj
  obtain ⟨-, he1, -⟩ := h.marchDay
  unfold CivilDate.marchDay at he1
  by_contra hneg
  obtain ⟨n, hn⟩ : ∃ n, d.marchYear = -n := ⟨-d.marchYear, by ring⟩
  have hpos : 0 ≤ n := by omega
  rw [hn, Int.neg_tdiv, Int.neg_tdiv, Int.neg_tdiv, Int.tdiv_eq_ediv_of_nonneg hpos,
    Int.tdiv_eq_ediv_of_nonneg hpos, Int.tdiv_eq_ediv_of_nonneg hpos] at hvalue
  omega

/-- A number that the formula returns is the number of the day. -/
theorem dayNumber_of_numberOf {d : CivilDate} {j : ℤ} (h : d.Valid) (h0 : 0 ≤ j)
    (hj : numberOf d = ok j) : d.dayNumber = j := by
  have hpos := marchYear_nonneg h h0 hj
  rw [numberOf_evals h j hj, CivilDate.dayNumber, CivilDate.daysBeforeYear,
    Int.tdiv_eq_ediv_of_nonneg hpos, Int.tdiv_eq_ediv_of_nonneg hpos,
    Int.tdiv_eq_ediv_of_nonneg hpos]
  ring

theorem ofYearMonthDay_eq {d : CivilDate} {j : ℤ} (h : numberOf d = ok j) :
    ofYearMonthDay (ok d.year) (ok d.month) (ok d.day) = .ok ⟨j⟩ := by
  rw [ofYearMonthDay]
  exact congrArg ofNumber h

theorem weekDay_eq {j : ℤ} (h0 : 0 ≤ j) (h1 : j < 2147483647) :
    (Date.mk j).weekDay = ok ((j + 1) % 7) := by
  simp (disch := (try rw [fits32]); omega) only [weekDay, kDaysPerWeek, ofNat_eq, ok_add, ok_mod]

@[simp] theorem kJulianDayOf1970_01_01_eq : kJulianDayOf1970_01_01 = ok 2440588 := rfl

theorem marchYear_of_year {d : CivilDate} (h : d.Valid) (hlow : -4799 ≤ d.year)
    (hhigh : d.year ≤ 1000001) : 0 ≤ d.marchYear ∧ d.marchYear ≤ 1004801 := by
  obtain ⟨h1, h2, -, -⟩ := h
  unfold CivilDate.marchYear
  omega

theorem numberOf_of_year {d : CivilDate} (h : d.Valid) (hlow : -4799 ≤ d.year)
    (hhigh : d.year ≤ 1000001) : numberOf d = ok d.dayNumber := by
  obtain ⟨h0, h1⟩ := marchYear_of_year h hlow hhigh
  exact numberOf_eq h h0 (by omega)

theorem next_year (d : CivilDate) : d.year ≤ d.next.year ∧ d.next.year ≤ d.year + 1 := by
  unfold CivilDate.next
  split_ifs <;> simp

theorem weekDay_next {j : ℤ} (h0 : 0 ≤ j) (h1 : j < 2147483646) :
    ∃ w, 0 ≤ w ∧ w ≤ 6 ∧ (Date.mk j).weekDay = ok w ∧
      (Date.mk (j + 1)).weekDay = ok ((w + 1) % 7) := by
  refine ⟨(j + 1) % 7, by omega, by omega, weekDay_eq h0 (by omega), ?_⟩
  rw [weekDay_eq (by omega) (by omega), ok_inj]
  omega

/-! ## Main results -/

/-- **Counting days.** The number of the next day is the next number, so that numbers are in the
order of the dates and the days of the week take turns. -/
theorem julianDayNumber_counts_days {d : CivilDate} (hvalid : d.Valid) (hlow : -4799 ≤ d.year)
    (hhigh : d.year ≤ 1000000) :
    ∃ j, numberOf d = ok j ∧ numberOf d.next = ok (j + 1) ∧
      getJulianDayNumber 1970 1 1 = ok 2440588 ∧
      (∀ e : CivilDate, e.Valid → -4799 ≤ e.year → e.year ≤ 1000000 → d.Before e →
        ∃ k, numberOf e = ok k ∧ j < k) ∧
      (0 ≤ j → ∃ w, 0 ≤ w ∧ w ≤ 6 ∧ (Date.mk j).weekDay = ok w ∧
        (Date.mk (j + 1)).weekDay = ok ((w + 1) % 7)) := by
  obtain ⟨hnext0, hnext1⟩ := next_year d
  refine ⟨d.dayNumber, numberOf_of_year hvalid hlow (by omega), ?_, kJulianDayOf1970_01_01_eq,
    ?_, ?_⟩
  · rw [← dayNumber_next hvalid]
    exact numberOf_of_year hvalid.next (by omega) (by omega)
  · intro e he helow hehigh hbefore
    exact ⟨e.dayNumber, numberOf_of_year he helow (by omega),
      dayNumber_lt hvalid he hbefore⟩
  · intro hj
    refine weekDay_next hj ?_
    have hday := d.dayNumber_eq_marchDay
    obtain ⟨-, he1, -⟩ := hvalid.marchDay
    obtain ⟨-, hyear⟩ := marchYear_of_year hvalid hlow (by omega)
    unfold CivilDate.daysBeforeYear at hday
    omega

/-- There was no leap day in 1900. -/
theorem julianDayNumber_counts_days_century :
    ∃ j, numberOf ⟨1900, 2, 28⟩ = ok j ∧ numberOf ⟨1900, 3, 1⟩ = ok (j + 1) := by
  have hvalid : CivilDate.Valid ⟨1900, 2, 28⟩ := by decide
  obtain ⟨j, hday, hnext, -⟩ := julianDayNumber_counts_days hvalid (by decide) (by decide)
  exact ⟨j, hday, hnext⟩

/-- **A bijection.** On the numbers that `getYearMonthDay` can take without an overflow, it and
`getJulianDayNumber` are inverse to each other. A date that has such a number by the calendar has
it in the code, and conversely. -/
theorem yearMonthDay_bijection {j : ℤ} (h0 : 0 ≤ j) (h1 : j ≤ 536838867) :
    (∃ d, getYearMonthDay (ok j) = .ok d ∧ d.Valid ∧ numberOf d = ok j) ∧
    ∀ d : CivilDate, d.Valid → (d.dayNumber = j ∨ numberOf d = ok j) →
      numberOf d = ok j ∧ getYearMonthDay (ok j) = .ok d := by
  have hnumber : ∀ d : CivilDate, d.Valid → d.dayNumber = j → numberOf d = ok j := by
    rintro d hd rfl
    exact numberOf_of_dayNumber hd h0 h1
  refine ⟨⟨_, getYearMonthDay_eq h0 h1, valid_ofDayNumber j, ?_⟩, ?_⟩
  · exact hnumber _ (valid_ofDayNumber j) (dayNumber_ofDayNumber j)
  · intro d hd hj
    have hday : d.dayNumber = j := by
      rcases hj with hj | hj
      · exact hj
      · exact dayNumber_of_numberOf hd h0 hj
    refine ⟨hnumber d hd hday, ?_⟩
    rw [getYearMonthDay_eq h0 h1, ← hday, ofDayNumber_dayNumber hd]

/-- The last number of the range. -/
theorem yearMonthDay_bijection_last :
    ∃ d, getYearMonthDay (ok 536838867) = .ok d ∧ d.Valid ∧ numberOf d = ok 536838867 :=
  (yearMonthDay_bijection (by decide) (by decide)).1

end Date

end Fishnet
