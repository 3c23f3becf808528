import Mathlib.Algebra.BigOperators.Group.Finset.Basic
import Mathlib.Tactic

/-!
# The proleptic Gregorian calendar

Dates are triples of integers; every year is allowed, before and after the year zero. The rules of
the calendar are the lengths of the months, and `CivilDate.next` is the day that follows by them.

The Julian day number counts days. It is given by a closed formula, for which years start in March:
the leap day is then the last day of a year, a year contributes the same to every day in it, and the
lengths of the months in front of a day depend on the month alone. Division rounds down, so that the
formula is right for all years.

## Main results

* `CivilDate.dayNumber_next`: the next day has the next number.
* `CivilDate.dayNumber_lt`: the numbers are in the order of the dates.
* `CivilDate.ofDayNumber_dayNumber`, `CivilDate.dayNumber_ofDayNumber`: every number is that of
  exactly one date, and divisions find it.
-/

/-- The Gregorian rule for leap years. -/
def IsLeap (y : ℤ) : Prop := 4 ∣ y ∧ (100 ∣ y → 400 ∣ y)

instance (y : ℤ) : Decidable (IsLeap y) := inferInstanceAs (Decidable (_ ∧ _))

/-- The length of a month. -/
def daysInMonth (y m : ℤ) : ℤ :=
  if m = 2 then if IsLeap y then 29 else 28
  else if m = 4 ∨ m = 6 ∨ m = 9 ∨ m = 11 then 30 else 31

theorem daysInMonth_pos (y m : ℤ) : 0 < daysInMonth y m := by
  unfold daysInMonth
  split_ifs <;> norm_num

theorem daysInMonth_le (y m : ℤ) : daysInMonth y m ≤ 31 := by
  unfold daysInMonth
  split_ifs <;> norm_num

@[ext]
structure CivilDate where
  year : ℤ
  month : ℤ
  day : ℤ
  deriving DecidableEq, Repr

namespace CivilDate

variable {d : CivilDate}

def Valid (d : CivilDate) : Prop :=
  1 ≤ d.month ∧ d.month ≤ 12 ∧ 1 ≤ d.day ∧ d.day ≤ daysInMonth d.year d.month

instance (d : CivilDate) : Decidable d.Valid := inferInstanceAs (Decidable (_ ∧ _))

/-- The next day. -/
def next (d : CivilDate) : CivilDate :=
  if d.day < daysInMonth d.year d.month then ⟨d.year, d.month, d.day + 1⟩
  else if d.month < 12 then ⟨d.year, d.month + 1, 1⟩
  else ⟨d.year + 1, 1, 1⟩

/-- The order of dates. -/
def Before (d e : CivilDate) : Prop :=
  d.year < e.year ∨
    d.year = e.year ∧ (d.month < e.month ∨ d.month = e.month ∧ d.day < e.day)

instance (d e : CivilDate) : Decidable (d.Before e) := inferInstanceAs (Decidable (_ ∨ _))

theorem Valid.next (h : d.Valid) : d.next.Valid := by
  obtain ⟨h1, h2, h3, -⟩ := h
  unfold CivilDate.next
  split_ifs with hday hmonth
  · exact ⟨h1, h2, by simp only; omega, by simp only; omega⟩
  · exact ⟨by simp only; omega, by simp only; omega, le_refl _, daysInMonth_pos _ _⟩
  · exact ⟨le_refl _, by norm_num, le_refl _, daysInMonth_pos _ _⟩

/-! ## Day numbers -/

/-- The days before the year `y`, counted in years that start in March. -/
def daysBeforeYear (y : ℤ) : ℤ := 365 * y + y / 4 - y / 100 + y / 400

/-- The days before the month `m` in a year that starts in March, with number zero. -/
def daysBeforeMonth (m : ℤ) : ℤ := (153 * m + 2) / 5

/-- The year that starts in March, counted from `-4800`. -/
def marchYear (d : CivilDate) : ℤ := d.year + 4800 - (14 - d.month) / 12

/-- The month, counted from March. -/
def marchMonth (d : CivilDate) : ℤ := d.month + 12 * ((14 - d.month) / 12) - 3

/-- The Julian day number. -/
def dayNumber (d : CivilDate) : ℤ :=
  d.day + daysBeforeMonth d.marchMonth + daysBeforeYear d.marchYear - 32045

theorem dayNumber_eq_first (y m d : ℤ) : dayNumber ⟨y, m, d⟩ = dayNumber ⟨y, m, 1⟩ + (d - 1) := by
  simp only [dayNumber, marchMonth, marchYear]
  ring

/-- A year that starts in March has a leap day at its end if the next year is a leap year. -/
theorem daysBeforeYear_succ (y : ℤ) : daysBeforeYear (y + 4800) =
    daysBeforeYear (y + 4799) + if IsLeap y then 366 else 365 := by
  unfold daysBeforeYear IsLeap
  split_ifs <;> omega

theorem marchMonth_bounds (d : CivilDate) : 0 ≤ d.marchMonth ∧ d.marchMonth ≤ 11 := by
  unfold marchMonth
  omega

/-- Except for February, which is the last, the days before the months grow by their lengths. -/
theorem daysBeforeMonth_succ (h1 : 1 ≤ d.month) (h2 : d.month ≤ 12)
    (h : d.month ≠ 2) : daysBeforeMonth (d.marchMonth + 1) =
      daysBeforeMonth d.marchMonth + daysInMonth d.year d.month := by
  obtain ⟨y, m, d⟩ := d
  simp only at h1 h2 h
  interval_cases m <;> first | rfl | exact absurd rfl h

/-- The length of February, by the year that ends with it. -/
theorem daysInMonth_february (h : d.month = 2) :
    d.marchMonth = 11 ∧
      daysInMonth d.year d.month = if IsLeap (d.marchYear + 1) then 29 else 28 := by
  obtain ⟨y, m, d⟩ := d
  obtain rfl : m = 2 := h
  refine ⟨rfl, ?_⟩
  have hleap : IsLeap (y + 4800 - 1 + 1) ↔ IsLeap y := by
    unfold IsLeap
    omega
  simp only [daysInMonth, marchYear, if_true]
  norm_num at hleap ⊢
  simp only [hleap]

/-- **The lengths of the months.** The first day of a month comes as many days after the first of
the month before as that one has. -/
theorem dayNumber_first {y m : ℤ} (h1 : 1 ≤ m) (h2 : m ≤ 12) :
    (if m < 12 then dayNumber ⟨y, m + 1, 1⟩ else dayNumber ⟨y + 1, 1, 1⟩) =
      dayNumber ⟨y, m, 1⟩ + daysInMonth y m := by
  -- the first of the next month, in a year that starts in March
  have hnext {d e : CivilDate} (hd : d.day = e.day) (hyear : e.marchYear = d.marchYear)
      (hmonth : e.marchMonth = d.marchMonth + 1) (h1 : 1 ≤ d.month) (h2 : d.month ≤ 12)
      (h : d.month ≠ 2) : e.dayNumber = d.dayNumber + daysInMonth d.year d.month := by
    have hsucc := daysBeforeMonth_succ h1 h2 h
    rw [dayNumber, dayNumber, hyear, hmonth, hsucc, hd]
    ring
  by_cases hm : m = 2
  · subst hm
    have hyear := daysBeforeYear_succ y
    have hmarch : dayNumber ⟨y, 2 + 1, 1⟩ = daysBeforeYear (y + 4800) - 32044 := by
      simp only [dayNumber, marchYear, marchMonth, daysBeforeMonth]
      norm_num
      ring
    have hfebruary : dayNumber ⟨y, 2, 1⟩ = daysBeforeYear (y + 4799) - 31707 := by
      have hshift : y + 4800 - 1 = y + 4799 := by ring
      simp only [dayNumber, marchYear, marchMonth, daysBeforeMonth]
      norm_num [hshift]
      ring
    rw [if_pos (by norm_num), hmarch, hfebruary, hyear, daysInMonth, if_pos rfl]
    split_ifs <;> ring
  · split_ifs with hlt
    · refine hnext (d := ⟨y, m, 1⟩) rfl ?_ ?_ h1 h2 hm
      · simp only [marchYear]
        omega
      · simp only [marchMonth]
        omega
    · refine hnext (d := ⟨y, m, 1⟩) rfl ?_ ?_ h1 h2 hm
      · simp only [marchYear]
        omega
      · simp only [marchMonth]
        omega

/-- **Counting.** The next day has the next number. -/
theorem dayNumber_next (h : d.Valid) : d.next.dayNumber = d.dayNumber + 1 := by
  obtain ⟨y, m, d⟩ := d
  obtain ⟨h1, h2, h3, h4⟩ := h
  simp only at h1 h2 h3 h4
  have hfirst := dayNumber_first (y := y) h1 h2
  have hday := dayNumber_eq_first y m d
  unfold next
  simp only
  split_ifs with hlt hmonth
  · rw [dayNumber_eq_first y m (d + 1)]
    omega
  · rw [if_pos hmonth] at hfirst
    omega
  · rw [if_neg hmonth] at hfirst
    omega

/-- The day of the year, from zero. -/
def yearDay (d : CivilDate) : ℤ :=
  (∑ k ∈ Finset.range (d.month - 1).toNat, daysInMonth d.year (k + 1)) + (d.day - 1)

theorem dayNumber_month (y : ℤ) {n : ℕ} (h : n ≤ 11) : dayNumber ⟨y, n + 1, 1⟩ =
    dayNumber ⟨y, 1, 1⟩ + ∑ k ∈ Finset.range n, daysInMonth y (k + 1) := by
  induction n with
  | zero => simp
  | succ n ih =>
    have hfirst := dayNumber_first (y := y) (m := n + 1) (by omega) (by omega)
    rw [if_pos (by omega)] at hfirst
    rw [Finset.sum_range_succ, ← add_assoc, ← ih (by omega), ← hfirst]
    push_cast
    rfl

theorem Valid.yearDay_eq (h : d.Valid) : d.yearDay = d.dayNumber - dayNumber ⟨d.year, 1, 1⟩ := by
  obtain ⟨y, m, d⟩ := d
  obtain ⟨h1, h2, -, -⟩ := h
  simp only at h1 h2
  obtain ⟨n, rfl⟩ : ∃ n : ℕ, m = n + 1 := ⟨(m - 1).toNat, by omega⟩
  have hn : ((n : ℤ) + 1 - 1).toNat = n := by omega
  have hmonth := dayNumber_month y (n := n) (by omega)
  have hday := dayNumber_eq_first y (n + 1) d
  simp only [yearDay, hn]
  omega

/-! ## The order -/

/-- The first day of the month with number `k`, months being counted from the year zero. -/
def monthFirst (k : ℤ) : ℤ := dayNumber ⟨k / 12, k % 12 + 1, 1⟩

theorem monthFirst_succ (k : ℤ) :
    monthFirst (k + 1) = monthFirst k + daysInMonth (k / 12) (k % 12 + 1) := by
  have hfirst := dayNumber_first (y := k / 12) (m := k % 12 + 1) (by omega) (by omega)
  rw [monthFirst, monthFirst, ← hfirst]
  split_ifs with hlt
  · congr 2 <;> omega
  · congr 2 <;> omega

theorem monthFirst_strictMono : StrictMono monthFirst := by
  refine strictMono_int_of_lt_succ fun k ↦ ?_
  rw [monthFirst_succ]
  have := daysInMonth_pos (k / 12) (k % 12 + 1)
  omega

/-- The number of the month of a date. -/
def monthIndex (d : CivilDate) : ℤ := 12 * d.year + (d.month - 1)

theorem Valid.dayNumber_eq (h : d.Valid) : d.dayNumber = monthFirst d.monthIndex + (d.day - 1) := by
  obtain ⟨h1, h2, -, -⟩ := h
  have hyear : d.monthIndex / 12 = d.year := by
    unfold monthIndex
    omega
  have hmonth : d.monthIndex % 12 + 1 = d.month := by
    unfold monthIndex
    omega
  rw [monthFirst, hyear, hmonth]
  exact dayNumber_eq_first d.year d.month d.day

/-- Days are numbered in their order. -/
theorem dayNumber_lt {d e : CivilDate} (hd : d.Valid) (he : e.Valid) (h : d.Before e) :
    d.dayNumber < e.dayNumber := by
  rw [hd.dayNumber_eq, he.dayNumber_eq]
  obtain ⟨h1, h2, h3, h4⟩ := hd
  obtain ⟨h1', h2', h3', -⟩ := he
  have hcases : d.monthIndex < e.monthIndex ∨ d.monthIndex = e.monthIndex ∧ d.day < e.day := by
    unfold monthIndex
    rcases h with hy | ⟨hy, hm | ⟨hm, hday⟩⟩
    · exact Or.inl (by omega)
    · exact Or.inl (by omega)
    · exact Or.inr ⟨by omega, hday⟩
  rcases hcases with hlt | ⟨heq, hday⟩
  · -- the day lies before the first of the next month
    have hnext := monthFirst_succ d.monthIndex
    have hyear : d.monthIndex / 12 = d.year := by
      unfold monthIndex
      omega
    have hmonth : d.monthIndex % 12 + 1 = d.month := by
      unfold monthIndex
      omega
    rw [hyear, hmonth] at hnext
    have hle : monthFirst (d.monthIndex + 1) ≤ monthFirst e.monthIndex :=
      monthFirst_strictMono.monotone (by omega)
    omega
  · rw [heq]
    omega

/-! ## From numbers to dates -/

/-- The day of a year that starts in March, counted from zero. -/
def marchDay (d : CivilDate) : ℤ := daysBeforeMonth d.marchMonth + d.day - 1

/-- The number of centuries before the day `a`, the first of March of `-4800` being zero. -/
def centuryOf (a : ℤ) : ℤ := (4 * a + 3) / 146097

/-- The day in its century. -/
def dayOfCentury (a : ℤ) : ℤ := a - centuryOf a * 146097 / 4

/-- The number of years before the day `c` of a century. -/
def yearOfCentury (c : ℤ) : ℤ := (4 * c + 3) / 1461

/-- The day in its year. -/
def dayOfYear (c : ℤ) : ℤ := c - 1461 * yearOfCentury c / 4

/-- The month of the day `e` of a year. -/
def monthOf (e : ℤ) : ℤ := (5 * e + 2) / 153

/-- The date of the day `e` of the year `y`, both counted from March. -/
def ofMarch (y e : ℤ) : CivilDate :=
  ⟨y - 4800 + monthOf e / 10, monthOf e + 3 - 12 * (monthOf e / 10),
    e - daysBeforeMonth (monthOf e) + 1⟩

/-- The date with the number `j`. -/
def ofDayNumber (j : ℤ) : CivilDate :=
  let a := j + 32044
  let c := dayOfCentury a
  ofMarch (centuryOf a * 100 + yearOfCentury c) (dayOfYear c)

/-- The days of the year `y`, counted from March: the last one is a leap day. -/
def MarchDay (y e : ℤ) : Prop := 0 ≤ e ∧ e ≤ 365 ∧ (e = 365 → IsLeap (y + 1))

theorem dayNumber_eq_marchDay (d : CivilDate) :
    d.dayNumber + 32044 = daysBeforeYear d.marchYear + d.marchDay := by
  unfold dayNumber marchDay
  ring

theorem Valid.marchDay (h : d.Valid) : MarchDay d.marchYear d.marchDay := by
  obtain ⟨hmonth0, hmonth1⟩ := d.marchMonth_bounds
  obtain ⟨h1, h2, h3, h4⟩ := h
  unfold MarchDay CivilDate.marchDay
  by_cases hm : d.month = 2
  · obtain ⟨hlast, hdays⟩ := daysInMonth_february hm
    rw [hdays] at h4
    rw [hlast, daysBeforeMonth]
    split_ifs at h4 with hleap
    · exact ⟨by omega, by omega, fun _ ↦ hleap⟩
    · exact ⟨by omega, by omega, fun he ↦ absurd he (by omega)⟩
  · have hsucc := daysBeforeMonth_succ h1 h2 hm
    have hlt : d.marchMonth ≤ 10 := by
      unfold marchMonth
      omega
    unfold daysBeforeMonth at hsucc ⊢
    exact ⟨by omega, by omega, fun he ↦ absurd he (by omega)⟩

theorem Valid.monthOf_marchDay (h : d.Valid) : monthOf d.marchDay = d.marchMonth := by
  obtain ⟨h1, h2, h3, h4⟩ := h
  unfold monthOf CivilDate.marchDay
  by_cases hm : d.month = 2
  · obtain ⟨hlast, hdays⟩ := daysInMonth_february hm
    have hle : daysInMonth d.year d.month ≤ 29 := by
      rw [hdays]
      split_ifs <;> norm_num
    rw [hlast, daysBeforeMonth]
    omega
  · have hsucc := daysBeforeMonth_succ h1 h2 hm
    unfold daysBeforeMonth at hsucc ⊢
    omega

theorem Valid.ofMarch_marchDay (h : d.Valid) : ofMarch d.marchYear d.marchDay = d := by
  have hmonth := h.monthOf_marchDay
  obtain ⟨h1, h2, -, -⟩ := h
  unfold ofMarch
  rw [hmonth]
  ext
  · simp only [marchYear, marchMonth]
    omega
  · simp only [marchMonth]
    omega
  · simp only [CivilDate.marchDay]
    ring

theorem MarchDay.monthOf_bounds {y e : ℤ} (h : MarchDay y e) : 0 ≤ monthOf e ∧ monthOf e ≤ 11 := by
  obtain ⟨h0, h1, -⟩ := h
  unfold monthOf
  omega

theorem marchMonth_ofMarch {y e : ℤ} (h : MarchDay y e) :
    (ofMarch y e).marchMonth = monthOf e ∧ (ofMarch y e).marchYear = y := by
  obtain ⟨h0, h1⟩ := h.monthOf_bounds
  simp only [marchMonth, marchYear, ofMarch]
  omega

theorem valid_ofMarch {y e : ℤ} (h : MarchDay y e) : (ofMarch y e).Valid := by
  obtain ⟨hmonth, hyear⟩ := marchMonth_ofMarch h
  obtain ⟨hbound0, hbound1⟩ := h.monthOf_bounds
  obtain ⟨h0, h1, hleap⟩ := h
  have hday : (ofMarch y e).day = e - daysBeforeMonth (monthOf e) + 1 := rfl
  have hm0 : 1 ≤ (ofMarch y e).month := by
    simp only [ofMarch]
    omega
  have hm1 : (ofMarch y e).month ≤ 12 := by
    simp only [ofMarch]
    omega
  refine ⟨hm0, hm1, ?_, ?_⟩
  · rw [hday]
    unfold daysBeforeMonth monthOf
    omega
  · by_cases hm : (ofMarch y e).month = 2
    · obtain ⟨hlast, hdays⟩ := daysInMonth_february hm
      rw [hdays, hyear, hday, ← hmonth, hlast, daysBeforeMonth]
      split_ifs with hl
      · omega
      · have he : e ≠ 365 := fun he ↦ hl (hleap he)
        omega
    · have hsucc := daysBeforeMonth_succ hm0 hm1 hm
      rw [hmonth] at hsucc
      rw [hday]
      unfold daysBeforeMonth monthOf at hsucc ⊢
      omega

theorem marchDay_ofMarch {y e : ℤ} (h : MarchDay y e) : (ofMarch y e).marchDay = e := by
  obtain ⟨hmonth, -⟩ := marchMonth_ofMarch h
  rw [CivilDate.marchDay, hmonth, ofMarch]
  ring

theorem daysBeforeYear_century (b : ℤ) {r : ℤ} (h0 : 0 ≤ r) (h1 : r ≤ 99) :
    daysBeforeYear (b * 100 + r) = 36524 * b + b / 4 + 365 * r + r / 4 := by
  have h4 : (b * 100 + r) / 4 = 25 * b + r / 4 := by omega
  have h100 : (b * 100 + r) / 100 = b := by omega
  have h400 : (b * 100 + r) / 400 = b / 4 := by omega
  rw [daysBeforeYear, h4, h100, h400]
  ring

theorem isLeap_century (b : ℤ) {r : ℤ} (h0 : 0 ≤ r) (h1 : r ≤ 99) :
    IsLeap (b * 100 + r + 1) ↔ r % 4 = 3 ∧ (r = 99 → b % 4 = 3) := by
  unfold IsLeap
  omega

/-- The divisions undo the count of the days before a year. -/
theorem centuries_of_marchDay {b r e : ℤ} (h0 : 0 ≤ r) (h1 : r ≤ 99)
    (h : MarchDay (b * 100 + r) e) {a : ℤ} (ha : a = daysBeforeYear (b * 100 + r) + e) :
    centuryOf a = b ∧ yearOfCentury (dayOfCentury a) = r ∧ dayOfYear (dayOfCentury a) = e := by
  obtain ⟨he0, he1, hleap⟩ := h
  rw [isLeap_century b h0 h1] at hleap
  rw [daysBeforeYear_century b h0 h1] at ha
  have hcentury : centuryOf a = b := by
    unfold centuryOf
    omega
  have hday : dayOfCentury a = 365 * r + r / 4 + e := by
    rw [dayOfCentury, hcentury]
    omega
  have hyear : yearOfCentury (dayOfCentury a) = r := by
    rw [yearOfCentury, hday]
    omega
  refine ⟨hcentury, hyear, ?_⟩
  rw [dayOfYear, hyear, hday]
  omega

theorem dayOfCentury_bounds (a : ℤ) : 0 ≤ dayOfCentury a ∧ dayOfCentury a ≤ 36524 ∧
    (dayOfCentury a = 36524 → centuryOf a % 4 = 3) := by
  unfold dayOfCentury
  obtain ⟨b, hb⟩ : ∃ b, centuryOf a = b := ⟨_, rfl⟩
  have hdays : b * 146097 / 4 = 36524 * b + b / 4 := by omega
  rw [hb, hdays]
  unfold centuryOf at hb
  refine ⟨?_, ?_, fun hlast ↦ ?_⟩
  all_goals omega

theorem yearOfCentury_bounds {c : ℤ} (h0 : 0 ≤ c) (h1 : c ≤ 36524) :
    0 ≤ yearOfCentury c ∧ yearOfCentury c ≤ 99 := by
  unfold yearOfCentury
  omega

theorem dayOfYear_bounds (c : ℤ) : 0 ≤ dayOfYear c ∧ dayOfYear c ≤ 365 ∧
    (dayOfYear c = 365 → yearOfCentury c % 4 = 3) := by
  unfold dayOfYear yearOfCentury
  omega

/-- Every day is a day of the year that the divisions give. -/
theorem marchDay_centuries (a : ℤ) :
    MarchDay (centuryOf a * 100 + yearOfCentury (dayOfCentury a)) (dayOfYear (dayOfCentury a)) ∧
      daysBeforeYear (centuryOf a * 100 + yearOfCentury (dayOfCentury a)) +
        dayOfYear (dayOfCentury a) = a := by
  obtain ⟨hc0, hc1, hclast⟩ := dayOfCentury_bounds a
  obtain ⟨hd0, hd1⟩ := yearOfCentury_bounds hc0 hc1
  obtain ⟨he0, he1, helast⟩ := dayOfYear_bounds (dayOfCentury a)
  refine ⟨⟨he0, he1, ?_⟩, ?_⟩
  · intro he
    refine (isLeap_century _ hd0 hd1).2 ⟨helast he, fun h99 ↦ hclast ?_⟩
    -- the last day of the last year of a century
    rw [dayOfYear, h99] at he
    omega
  · rw [daysBeforeYear_century _ hd0 hd1, dayOfYear, dayOfCentury]
    omega

theorem ofDayNumber_dayNumber (h : d.Valid) : ofDayNumber d.dayNumber = d := by
  have hsplit : d.marchYear / 100 * 100 + d.marchYear % 100 = d.marchYear := by omega
  have hday := h.marchDay
  have ha := d.dayNumber_eq_marchDay
  rw [← hsplit] at hday ha
  obtain ⟨hcentury, hyear, hday⟩ := centuries_of_marchDay (by omega) (by omega) hday ha
  rw [ofDayNumber, hcentury, hyear, hday, hsplit]
  exact h.ofMarch_marchDay

theorem valid_ofDayNumber (j : ℤ) : (ofDayNumber j).Valid :=
  valid_ofMarch (marchDay_centuries (j + 32044)).1

theorem dayNumber_ofDayNumber (j : ℤ) : (ofDayNumber j).dayNumber = j := by
  obtain ⟨hmarch, hcount⟩ := marchDay_centuries (j + 32044)
  have h := dayNumber_eq_marchDay (ofDayNumber j)
  simp only [ofDayNumber] at h ⊢
  rw [(marchMonth_ofMarch hmarch).2, marchDay_ofMarch hmarch, hcount] at h
  omega

end CivilDate
