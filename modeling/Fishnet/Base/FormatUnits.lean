import Fishnet.Library.Printf

/-!
# Quantities with units

`formatSI` and `formatIEC` print a count with three significant digits and a unit, chosen so that
the text stays short. Each branch pairs a limit with a number of decimal places, a divisor and a
suffix, and the limits are where rounding would add a digit.

Both convert the count to `double`, which rounds from `2 ^ 53` on. `formatSI` compares the count and
prints the `double`; `formatIEC` compares the `double`, with literals that are `double`s too. Its
products are exact, one factor being a power of two. Divisions are read in exact arithmetic, and so
is `printf`, which may treat ties in any way. The texts are far below the 64 characters of `buf`.

## Main results

* `formatSI_short_and_accurate_iff`: at most five characters and half a unit in the last place,
  unless the conversion takes the count to a half-way point of what can be printed, or past it.
* `formatIEC_short_and_accurate_iff`: the same for six characters, except in the two branches that
  print `Pi` after a division by `Ti`.
-/

namespace Fishnet

open List

/-! ## The model -/

/-- The `double` nearest to `x`, if its last bit stands for `2 ^ e`. -/
def toDouble (e : ℤ) (x : ℚ) : ℚ := Rounding.halfEven.toInt (x / 2 ^ e) * 2 ^ e

/-- `static_cast<double>` of an integer. A `double` has 53 bits. -/
def castDouble (s : ℤ) : ℚ := toDouble (s.natAbs.log2 - 52 : ℕ) s

/-- `formatSI`. -/
def formatSI (r : Rounding) (s : ℤ) : List Char :=
  let n := castDouble s
  if s < 1000 then printInt s
  else if s < 9995 then printFixed r 2 (n / 1e3) ++ ['k']
  else if s < 99950 then printFixed r 1 (n / 1e3) ++ ['k']
  else if s < 999500 then printFixed r 0 (n / 1e3) ++ ['k']
  else if s < 9995000 then printFixed r 2 (n / 1e6) ++ ['M']
  else if s < 99950000 then printFixed r 1 (n / 1e6) ++ ['M']
  else if s < 999500000 then printFixed r 0 (n / 1e6) ++ ['M']
  else if s < 9995000000 then printFixed r 2 (n / 1e9) ++ ['G']
  else if s < 99950000000 then printFixed r 1 (n / 1e9) ++ ['G']
  else if s < 999500000000 then printFixed r 0 (n / 1e9) ++ ['G']
  else if s < 9995000000000 then printFixed r 2 (n / 1e12) ++ ['T']
  else if s < 99950000000000 then printFixed r 1 (n / 1e12) ++ ['T']
  else if s < 999500000000000 then printFixed r 0 (n / 1e12) ++ ['T']
  else if s < 9995000000000000 then printFixed r 2 (n / 1e15) ++ ['P']
  else if s < 99950000000000000 then printFixed r 1 (n / 1e15) ++ ['P']
  else if s < 999500000000000000 then printFixed r 0 (n / 1e15) ++ ['P']
  else printFixed r 2 (n / 1e18) ++ ['E']

def Ki : ℚ := 1024.0
def Mi : ℚ := Ki * 1024.0
def Gi : ℚ := Mi * 1024.0
def Ti : ℚ := Gi * 1024.0
def Pi : ℚ := Ti * 1024.0
def Ei : ℚ := Pi * 1024.0

/-- The literal `9.995`. -/
def d9995 : ℚ := toDouble (-49) 9.995

/-- The literal `99.95`. -/
def d9995e1 : ℚ := toDouble (-46) 99.95

/-- `formatIEC`. The literal `1023.5` is exact. -/
def formatIEC (r : Rounding) (s : ℤ) : List Char :=
  let n := castDouble s
  if n < Ki then printInt s
  else if n < Ki * d9995 then printFixed r 2 (n / Ki) ++ ['K', 'i']
  else if n < Ki * d9995e1 then printFixed r 1 (n / Ki) ++ ['K', 'i']
  else if n < Ki * 1023.5 then printFixed r 0 (n / Ki) ++ ['K', 'i']
  else if n < Mi * d9995 then printFixed r 2 (n / Mi) ++ ['M', 'i']
  else if n < Mi * d9995e1 then printFixed r 0 (n / Mi) ++ ['M', 'i']
  else if n < Mi * 1023.5 then printFixed r 0 (n / Mi) ++ ['M', 'i']
  else if n < Gi * d9995 then printFixed r 2 (n / Gi) ++ ['G', 'i']
  else if n < Gi * d9995e1 then printFixed r 0 (n / Gi) ++ ['G', 'i']
  else if n < Gi * 1023.5 then printFixed r 0 (n / Gi) ++ ['G', 'i']
  else if n < Ti * d9995 then printFixed r 2 (n / Ti) ++ ['T', 'i']
  else if n < Ti * d9995e1 then printFixed r 0 (n / Ti) ++ ['T', 'i']
  else if n < Ti * 1023.5 then printFixed r 0 (n / Ti) ++ ['T', 'i']
  else if n < Pi * d9995 then printFixed r 2 (n / Pi) ++ ['P', 'i']
  -- these two branches divide by `Ti`
  else if n < Pi * d9995e1 then printFixed r 0 (n / Ti) ++ ['P', 'i']
  else if n < Pi * 1023.5 then printFixed r 0 (n / Ti) ++ ['P', 'i']
  else if n < Ei * d9995 then printFixed r 2 (n / Ei) ++ ['E', 'i']
  else printFixed r 1 (n / Ei) ++ ['E', 'i']

/-! ## The specification -/

/-- The suffixes of `formatSI` and what they stand for. -/
def siUnits : List (List Char × ℚ) :=
  [([], 1), (['k'], 10 ^ 3), (['M'], 10 ^ 6), (['G'], 10 ^ 9), (['T'], 10 ^ 12), (['P'], 10 ^ 15),
    (['E'], 10 ^ 18)]

/-- The suffixes of `formatIEC` and what they stand for. -/
def iecUnits : List (List Char × ℚ) :=
  [([], 1), (['K', 'i'], 2 ^ 10), (['M', 'i'], 2 ^ 20), (['G', 'i'], 2 ^ 30), (['T', 'i'], 2 ^ 40),
    (['P', 'i'], 2 ^ 50), (['E', 'i'], 2 ^ 60)]

/-- A text is a numeral and a suffix, and the numeral times the unit differs from `n` by at most
half a unit in the last place of the numeral. -/
def Accurate (units : List (List Char × ℚ)) (text : List Char) (n : ℤ) : Prop :=
  let numeral := text.takeWhile fun c ↦ c.isDigit ∨ c = '.'
  ∃ unit, units.lookup (text.drop numeral.length) = some unit ∧
    |readFixed numeral * unit - n| ≤ unit / (2 * 10 ^ (fraction numeral).length)

/-- What is promised of a text. -/
def Good (width : ℕ) (units : List (List Char × ℚ)) (n : ℤ) (text : List Char) : Prop :=
  text.length ≤ width ∧ Accurate units text n

/-- Half a unit in the last place that `formatSI` prints, for one unit and those after it. -/
def siUnitHalf (unit : ℚ) (s : ℤ) (rest : ℚ) : ℚ :=
  if s < unit * 9.995 then unit / (2 * 10 ^ 2)
  else if s < unit * 99.95 then unit / (2 * 10 ^ 1)
  else if s < unit * 999.5 then unit / (2 * 10 ^ 0)
  else rest

def siHalf (s : ℤ) : ℚ :=
  siUnitHalf 1e3 s <| siUnitHalf 1e6 s <| siUnitHalf 1e9 s <| siUnitHalf 1e12 s <|
    siUnitHalf 1e15 s (1e18 / (2 * 10 ^ 2))

/-- The same for `formatIEC`, if it divides by the unit that it prints. -/
def iecUnitHalf (unit : ℚ) (d : ℕ) (n rest : ℚ) : ℚ :=
  if n < unit * d9995 then unit / (2 * 10 ^ 2)
  else if n < unit * d9995e1 then unit / (2 * 10 ^ d)
  else if n < unit * 1023.5 then unit / (2 * 10 ^ 0)
  else rest

def iecHalf (n : ℚ) : ℚ :=
  iecUnitHalf Ki 1 n <| iecUnitHalf Mi 0 n <| iecUnitHalf Gi 0 n <| iecUnitHalf Ti 0 n <|
    if n < Pi * d9995 then Pi / (2 * 10 ^ 2) else Ei / (2 * 10 ^ 2)

/-! ## The conversion -/

theorem log2_sub_le {m k : ℕ} (h : m < 2 ^ (53 + k)) : m.log2 - 52 ≤ k := by
  rcases eq_or_ne m 0 with rfl | h0
  · exact Nat.zero_le k
  · have hlog := (Nat.log2_lt h0).2 h
    omega

theorem castDouble_of_lt {s : ℤ} (h : s.natAbs < 2 ^ 53) : castDouble s = s := by
  have hlog : s.natAbs.log2 - 52 = 0 := Nat.le_zero.1 (log2_sub_le h)
  simp [castDouble, toDouble, hlog, Rounding.halfEven]

theorem abs_castDouble_sub_le {s : ℤ} (h : s.natAbs < 2 ^ 63) : |castDouble s - s| ≤ 512 := by
  set e := s.natAbs.log2 - 52 with he
  have hpos : (0 : ℚ) < 2 ^ e := by positivity
  have hpow : (2 : ℚ) ^ e ≤ 2 ^ 10 := pow_le_pow_right₀ (by norm_num) (log2_sub_le h)
  have hdiff : castDouble s - s =
      -((s / 2 ^ e - Rounding.halfEven.toInt (s / 2 ^ e)) * 2 ^ e) := by
    rw [castDouble, toDouble, zpow_natCast]
    field_simp
    ring
  rw [hdiff, abs_neg, abs_mul, abs_of_pos hpos]
  calc |(s : ℚ) / 2 ^ e - Rounding.halfEven.toInt (s / 2 ^ e)| * 2 ^ e
      ≤ 1 / 2 * 2 ^ 10 := by gcongr; exact Rounding.near _ _
    _ = 512 := by norm_num

theorem castDouble_nonneg {s : ℤ} (h0 : 0 ≤ s) (h : s.natAbs < 2 ^ 63) : 0 ≤ castDouble s := by
  by_cases hs : s.natAbs < 2 ^ 53
  · rw [castDouble_of_lt hs]
    exact_mod_cast h0
  · have hnear := (abs_le.1 (abs_castDouble_sub_le h)).1
    have hmin : (512 : ℚ) ≤ s := by exact_mod_cast (by omega : 512 ≤ s)
    linarith

/-! ## One branch -/

section Branch

variable {units : List (List Char × ℚ)} {s : ℤ} {width : ℕ}

/-- A suffix does not look like a part of a numeral, and stands for its unit. -/
structure Suffix (units : List (List Char × ℚ)) (suffix : List Char) (unit : ℚ) : Prop where
  letters : ∀ c ∈ suffix, ¬(c.isDigit ∨ c = '.')
  lookup : units.lookup suffix = some unit
  pos : 0 < unit

theorem accurate_append_iff {numeral suffix : List Char} {unit : ℚ} (hnumeral : IsNumeral numeral)
    (h : Suffix units suffix unit) : Accurate units (numeral ++ suffix) s ↔
      |readFixed numeral * unit - s| ≤ unit / (2 * 10 ^ (fraction numeral).length) := by
  rw [Accurate, takeWhile_numeral hnumeral h.letters, drop_left, h.lookup]
  simp

theorem good_printInt (h : Suffix units [] 1) (hs : 0 ≤ s) (hw : 0 < width)
    (hlt : s < 10 ^ width) : Good width units s (printInt s) := by
  have hprint : printInt s = Nat.toDigits 10 s.natAbs := by
    rw [printInt, if_neg (by omega), nil_append]
  have hread : readFixed (Nat.toDigits 10 s.natAbs) = s := by
    rw [readFixed_toDigits, Nat.cast_natAbs, abs_of_nonneg hs]
  rw [hprint]
  constructor
  · refine (Nat.length_toDigits_le_iff (by norm_num) hw).2 ?_
    zify
    rwa [abs_of_nonneg hs]
  · have hnumeral : IsNumeral (Nat.toDigits 10 s.natAbs) :=
      fun c hc ↦ Or.inl (isDigit_of_mem_toDigits hc)
    rw [← append_nil (Nat.toDigits _ _), accurate_append_iff hnumeral h, hread, mul_one, sub_self,
      abs_zero]
    positivity

variable {r : Rounding} {d : ℕ} {n unit : ℚ} {suffix : List Char}

theorem accurate_iff (h : Suffix units suffix unit) (hn : 0 ≤ n) :
    Accurate units (printFixed r d (n / unit) ++ suffix) s ↔
      |2 * r.toInt (n / unit * 10 ^ d) * (unit / (2 * 10 ^ d)) - s| ≤ unit / (2 * 10 ^ d) := by
  have hpos := h.pos
  have hplaces : (fraction (printFixed r d (n / unit))).length = d :=
    length_fraction_printPlaces _ _
  have hread : readFixed (printFixed r d (n / unit)) * unit =
      2 * r.toInt (n / unit * 10 ^ d) * (unit / (2 * 10 ^ d)) := by
    have hx : 0 ≤ n / unit * 10 ^ d := by positivity
    rw [printFixed, readFixed_printPlaces, Rounding.cast_toNat hx]
    field_simp
  have hnumeral : IsNumeral (printFixed r d (n / unit)) := isNumeral_printPlaces _ _
  rw [accurate_append_iff hnumeral h, hread, hplaces]

/-- **A branch that divides by its unit.** It is accurate for every treatment of ties exactly if the
conversion does not reach a half-way point. It has `k` digits before the point if the quotient stays
below `10 ^ k` by half a unit in the last place. -/
theorem forall_good_iff (k : ℕ) (h : Suffix units suffix unit) (hn : 0 ≤ n) (hk : 0 < k)
    (hlt : ¬Splits (unit / (2 * 10 ^ d)) s n → n + unit / (2 * 10 ^ d) < unit * 10 ^ k)
    (hwidth : (k + if d = 0 then 0 else d + 1) + suffix.length ≤ width) :
    (∀ r, Good width units s (printFixed r d (n / unit) ++ suffix)) ↔
      ¬Splits (unit / (2 * 10 ^ d)) s n := by
  have hpos := h.pos
  have hscale : 2 * (n / unit * 10 ^ d) * (unit / (2 * 10 ^ d)) = n := by field_simp
  have hiff : (∀ r, Accurate units (printFixed r d (n / unit) ++ suffix) s) ↔
      ¬Splits (unit / (2 * 10 ^ d)) s n := by
    simp only [accurate_iff h hn]
    rw [forall_toInt_near_iff (by positivity), hscale]
  refine ⟨fun hall ↦ hiff.1 fun r ↦ (hall r).2, fun hsplit r ↦ ⟨?_, hiff.2 hsplit r⟩⟩
  have hquot : n / unit + 1 / (2 * 10 ^ d) < 10 ^ k := by
    have hdiv := div_lt_div_of_pos_right (hlt hsplit) hpos
    have hleft : (n + unit / (2 * 10 ^ d)) / unit = n / unit + 1 / (2 * 10 ^ d) := by
      field_simp
    have hright : unit * 10 ^ k / unit = 10 ^ k := by field_simp
    rwa [hleft, hright] at hdiv
  rw [length_append]
  exact (Nat.add_le_add_right (length_printFixed_le hk (by positivity) hquot) _).trans hwidth

end Branch

/-! ## SI units -/

section SI

variable {s : ℤ} {n : ℚ}

/-- **The three branches of a unit.** Two decimal places, one and none. A limit is a half-way point,
so a count below it must not be taken to it. -/
theorem siUnit_iff {unit half : ℚ} {c : Char} {l₁ l₂ l₃ : ℤ} {rest : Rounding → List Char}
    (hn : 0 ≤ n) (h : Suffix siUnits [c] unit) (h₁ : (l₁ : ℚ) = unit * 9.995)
    (h₂ : (l₂ : ℚ) = unit * 99.95) (h₃ : (l₃ : ℚ) = unit * 999.5)
    (hrest : (∀ r, Good 5 siUnits s (rest r)) ↔ ¬Splits half s n) :
    (∀ r, Good 5 siUnits s
      (if s < l₁ then printFixed r 2 (n / unit) ++ [c]
      else if s < l₂ then printFixed r 1 (n / unit) ++ [c]
      else if s < l₃ then printFixed r 0 (n / unit) ++ [c]
      else rest r)) ↔ ¬Splits (siUnitHalf unit s half) s n := by
  have hpos := h.pos
  simp only [← Int.cast_lt (R := ℚ), h₁, h₂, h₃, siUnitHalf]
  split_ifs with hlt hlt hlt
  · refine forall_good_iff 1 h hn (by norm_num) (fun hsplit ↦ ?_) (by simp)
    have hbelow := lt_of_not_splits hsplit 999 (by norm_num at hlt ⊢; linarith)
    norm_num at hbelow ⊢
    linarith
  · refine forall_good_iff 2 h hn (by norm_num) (fun hsplit ↦ ?_) (by simp)
    have hbelow := lt_of_not_splits hsplit 999 (by norm_num at hlt ⊢; linarith)
    norm_num at hbelow ⊢
    linarith
  · refine forall_good_iff 3 h hn (by norm_num) (fun hsplit ↦ ?_) (by simp)
    have hbelow := lt_of_not_splits hsplit 999 (by norm_num at hlt ⊢; linarith)
    norm_num at hbelow ⊢
    linarith
  · exact hrest

/-- **`formatSI`.** The text is short and accurate, whatever `printf` makes of ties, exactly if the
conversion of `s` to `double` does not reach a half-way point. -/
theorem formatSI_short_and_accurate_iff (s : ℤ) (h0 : 0 ≤ s) (h64 : s < 2 ^ 63) :
    (∀ r, (formatSI r s).length ≤ 5 ∧ Accurate siUnits (formatSI r s) s) ↔
      ¬Splits (siHalf s) s (castDouble s) := by
  have hmax : (s : ℚ) < 2 ^ 63 := by exact_mod_cast h64
  have hnear := abs_le.1 (abs_castDouble_sub_le (s := s) (by omega))
  have hn := castDouble_nonneg h0 (by omega)
  simp only [formatSI, siHalf]
  by_cases hsmall : s < 1000
  · simp only [if_pos hsmall, castDouble_of_lt (s := s) (by omega)]
    exact iff_of_true (fun _ ↦ good_printInt ⟨by simp, rfl, one_pos⟩ h0 (by norm_num) (by omega))
      not_splits_self
  · simp only [if_neg hsmall]
    -- the units from `k` to `P`
    iterate 5
      refine siUnit_iff hn ⟨by simp, by decide +kernel, by norm_num⟩ (by norm_num) (by norm_num)
        (by norm_num) ?_
    exact forall_good_iff 1 ⟨by simp, by decide +kernel, by norm_num⟩ hn (by norm_num)
      (fun _ ↦ by norm_num at hnear hmax ⊢; linarith) (by simp)

theorem formatSI_short_and_accurate_max :
    castDouble 9223372036854775807 = 9223372036854775808 ∧
      formatSI .halfEven 9223372036854775807 = "9.22E".toList ∧
      ∀ r, (formatSI r 9223372036854775807).length ≤ 5 ∧
        Accurate siUnits (formatSI r 9223372036854775807) 9223372036854775807 := by
  have hcast : castDouble 9223372036854775807 = 9223372036854775808 := by decide +kernel
  refine ⟨hcast, by decide +kernel, ?_⟩
  refine (formatSI_short_and_accurate_iff _ (by norm_num) (by norm_num)).2 ?_
  rw [hcast]
  have hhalf : siHalf 9223372036854775807 = (5000000000000000 : ℤ) := by
    norm_num [siHalf, siUnitHalf]
  rw [hhalf]
  rintro ⟨k, ⟨hlt, hle⟩ | ⟨hle, hlt⟩⟩
  · have hlt' : 9223372036854775807 < (2 * k + 1) * 5000000000000000 := by exact_mod_cast hlt
    have hle' : (2 * k + 1) * 5000000000000000 ≤ 9223372036854775808 := by exact_mod_cast hle
    omega
  · exact (hle.trans_lt hlt).not_gt (by norm_num)

/-- The conversion takes these two to a limit that they are below of. -/
theorem formatSI_at_limits :
    formatSI .halfEven 99949999999999999 = "100.0P".toList ∧
      formatSI .halfEven 999499999999999999 = "1000P".toList ∧
      ¬((formatSI .halfEven 99949999999999999).length ≤ 5 ∧
        Accurate siUnits (formatSI .halfEven 99949999999999999) 99949999999999999) := by
  have htext : formatSI .halfEven 99949999999999999 = "100.0P".toList := by decide +kernel
  refine ⟨htext, by decide +kernel, fun h ↦ ?_⟩
  rw [htext] at h
  exact absurd h.1 (by decide)

end SI

/-! ## IEC units -/

section IEC

variable {s : ℤ} {n : ℚ}

theorem Ki_eq : Ki = 2 ^ 10 := by norm_num [Ki]

theorem Mi_eq : Mi = 2 ^ 20 := by norm_num [Mi, Ki_eq]

theorem Gi_eq : Gi = 2 ^ 30 := by norm_num [Gi, Mi_eq]

theorem Ti_eq : Ti = 2 ^ 40 := by norm_num [Ti, Gi_eq]

theorem Pi_eq : Pi = 2 ^ 50 := by norm_num [Pi, Ti_eq]

theorem Ei_eq : Ei = 2 ^ 60 := by norm_num [Ei, Pi_eq]

theorem d9995_eq : d9995 = 5626684784446013 / 2 ^ 49 := by decide +kernel

theorem d9995e1_eq : d9995e1 = 7033355980557517 / 2 ^ 46 := by decide +kernel

/-- **The three branches of a unit.** The middle one prints `d` decimal places. -/
theorem iecUnit_iff {unit half : ℚ} {c : Char} {d : ℕ} {rest : Rounding → List Char} (hn : 0 ≤ n)
    (h : Suffix iecUnits [c, 'i'] unit)
    (hd : d = 0 ∨ d = 1 ∧ (n < unit * d9995e1 → n < unit * 99.95))
    (hrest : (∀ r, Good 6 iecUnits s (rest r)) ↔ ¬Splits half s n) :
    (∀ r, Good 6 iecUnits s
      (if n < unit * d9995 then printFixed r 2 (n / unit) ++ [c, 'i']
      else if n < unit * d9995e1 then printFixed r d (n / unit) ++ [c, 'i']
      else if n < unit * 1023.5 then printFixed r 0 (n / unit) ++ [c, 'i']
      else rest r)) ↔ ¬Splits (iecUnitHalf unit d n half) s n := by
  have hpos := h.pos
  rw [d9995e1_eq] at hd
  simp only [iecUnitHalf, d9995_eq, d9995e1_eq]
  split_ifs with hlt hlt hlt
  · exact forall_good_iff 1 h hn (by norm_num)
      (fun _ ↦ by norm_num at hlt ⊢; linarith) (by simp)
  · rcases hd with rfl | ⟨rfl, hbelow⟩
    · exact forall_good_iff 3 h hn (by norm_num)
        (fun _ ↦ by norm_num at hlt ⊢; linarith) (by simp)
    · have hbelow := hbelow hlt
      exact forall_good_iff 2 h hn (by norm_num)
        (fun _ ↦ by norm_num at hbelow ⊢; linarith) (by simp)
  · exact forall_good_iff 4 h hn (by norm_num)
      (fun _ ↦ by norm_num at hlt ⊢; linarith) (by simp)
  · exact hrest

theorem length_formatIEC_of_pi {r : Rounding} (hlow : Pi * d9995 ≤ castDouble s)
    (hhigh : castDouble s < Pi * 1023.5) : 6 < (formatIEC r s).length := by
  have hquot : 10 ^ 4 ≤ castDouble s / Ti := by
    rw [Pi_eq, d9995_eq] at hlow
    rw [Ti_eq, le_div_iff₀ (by norm_num)]
    norm_num at hlow ⊢
    linarith
  have hge : ∀ {x : ℚ}, x ≤ Pi * d9995 → ¬castDouble s < x := fun hx ↦ not_lt.2 (hx.trans hlow)
  have htext : formatIEC r s = printFixed r 0 (castDouble s / Ti) ++ ['P', 'i'] := by
    rw [formatIEC]
    iterate 14
      rw [if_neg (hge (by norm_num [Ki_eq, Mi_eq, Gi_eq, Ti_eq, Pi_eq, d9995_eq, d9995e1_eq]))]
    rw [if_pos hhigh, ite_self]
  have hlen := lt_length_printFixed_zero (r := r) (by norm_num) hquot
  rw [htext, length_append, length_cons, length_singleton]
  omega

/-- **`formatIEC`.** The text is short and accurate, whatever `printf` makes of ties, exactly if the
number is not in the two branches that divide by `Ti` and print `Pi`, and its conversion to `double`
does not reach a half-way point. -/
theorem formatIEC_short_and_accurate_iff (s : ℤ) (h0 : 0 ≤ s) (h64 : s < 2 ^ 63) :
    (∀ r, (formatIEC r s).length ≤ 6 ∧ Accurate iecUnits (formatIEC r s) s) ↔
      ¬(Pi * d9995 ≤ castDouble s ∧ castDouble s < Pi * 1023.5) ∧
        ¬Splits (iecHalf (castDouble s)) s (castDouble s) := by
  by_cases hpi : Pi * d9995 ≤ castDouble s ∧ castDouble s < Pi * 1023.5
  · exact iff_of_false (fun h ↦ (length_formatIEC_of_pi hpi.1 hpi.2).not_ge (h .halfEven).1)
      fun h ↦ h.1 hpi
  have hmax : (s : ℚ) < 2 ^ 63 := by exact_mod_cast h64
  have hnear := abs_le.1 (abs_castDouble_sub_le (s := s) (by omega))
  have hn := castDouble_nonneg h0 (by omega)
  have hexact : castDouble s < 2 ^ 52 → castDouble s = s := by
    intro hlt
    have hs : (s : ℚ) < 2 ^ 53 := by linarith
    have hs' : s < 2 ^ 53 := by exact_mod_cast hs
    exact castDouble_of_lt (by omega)
  rw [and_iff_right hpi]
  simp only [formatIEC, iecHalf, Ki_eq, Mi_eq, Gi_eq, Ti_eq, Pi_eq, Ei_eq] at hpi ⊢
  by_cases hsmall : castDouble s < 2 ^ 10
  · have hs := hexact (hsmall.trans (by norm_num))
    rw [hs] at hsmall
    have hlt : s < 2 ^ 10 := by exact_mod_cast hsmall
    simp only [hs, if_pos hsmall]
    exact iff_of_true (fun _ ↦ good_printInt ⟨by simp, rfl, one_pos⟩ h0 (by norm_num) (by omega))
      not_splits_self
  simp only [if_neg hsmall]
  refine iecUnit_iff hn ⟨by simp, by decide +kernel, by norm_num⟩
    (Or.inr ⟨rfl, fun hlt ↦ ?_⟩) ?_
  · -- the literal is above 99.95, but no integer is between the two limits
    rw [d9995e1_eq] at hlt
    have hs := hexact (hlt.trans (by norm_num))
    rw [hs] at hlt ⊢
    have hlt' : (s : ℚ) < 102349 := hlt.trans (by norm_num)
    have hle : (s : ℚ) ≤ 102348 := by
      exact_mod_cast Int.le_of_lt_add_one (b := 102348) (by exact_mod_cast hlt')
    exact hle.trans_lt (by norm_num)
  -- `Mi`, `Gi` and `Ti`
  iterate 3
    refine iecUnit_iff hn ⟨by simp, by decide +kernel, by norm_num⟩ (Or.inl rfl) ?_
  by_cases hlow : castDouble s < 2 ^ 50 * d9995
  · simp only [if_pos hlow]
    rw [d9995_eq] at hlow
    exact forall_good_iff 1 ⟨by simp, by decide +kernel, by norm_num⟩ hn (by norm_num)
      (fun _ ↦ by norm_num at hlow ⊢; linarith) (by simp)
  · have hhigh : ¬castDouble s < 2 ^ 50 * 1023.5 := fun h ↦ hpi ⟨not_lt.1 hlow, h⟩
    have hmiddle : ¬castDouble s < 2 ^ 50 * d9995e1 := by
      rw [d9995e1_eq]
      exact fun h ↦ hhigh (h.trans (by norm_num))
    have hlast : castDouble s < 2 ^ 60 * d9995 := by
      rw [d9995_eq]
      norm_num at hnear hmax ⊢
      linarith
    simp only [if_neg hlow, if_neg hmiddle, if_neg hhigh, if_pos hlast]
    exact forall_good_iff 1 ⟨by simp, by decide +kernel, by norm_num⟩ hn (by norm_num)
      (fun _ ↦ by norm_num at hnear hmax ⊢; linarith) (by simp)

theorem formatIEC_short_and_accurate_mebibytes :
    formatIEC .halfEven 104857600 = "100Mi".toList ∧
      ∀ r, (formatIEC r 104857600).length ≤ 6 ∧
        Accurate iecUnits (formatIEC r 104857600) 104857600 := by
  refine ⟨by decide +kernel, ?_⟩
  refine (formatIEC_short_and_accurate_iff _ (by norm_num) (by norm_num)).2 ?_
  rw [castDouble_of_lt (by norm_num), Pi_eq, d9995_eq]
  exact ⟨by norm_num, not_splits_self⟩

/-- Ten pebibytes are printed as `10240Pi`: seven characters, and a thousand times too much. -/
theorem formatIEC_ten_pebibytes :
    formatIEC .halfEven 11258999068426240 = "10240Pi".toList ∧
      ¬((formatIEC .halfEven 11258999068426240).length ≤ 6 ∧
        Accurate iecUnits (formatIEC .halfEven 11258999068426240) 11258999068426240) := by
  have htext : formatIEC .halfEven 11258999068426240 = "10240Pi".toList := by decide +kernel
  refine ⟨htext, fun h ↦ ?_⟩
  rw [htext] at h
  exact absurd h.1 (by decide)

end IEC

end Fishnet
