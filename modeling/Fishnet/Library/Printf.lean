import Mathlib.Algebra.Order.Round
import Mathlib.Data.List.TakeWhile
import Mathlib.Tactic

/-!
# The output of `printf`

The conversions `%d`, with and without a width, and `%.nf` for non-negative numbers. `%.nf` writes
the multiple of `10⁻ⁿ` nearest to the number. Which of two multiples is taken when the number is
halfway between them depends on the rounding mode, so the rounding is a parameter, and all that is
known of it is that it goes to a nearest integer.

`readFixed` is the number a text denotes. What `%.nf` writes is no longer than its bound
(`length_printFixed_le`) if the number stays below a power of ten by half a unit in the last place.
It is off by at most half a unit, also from any number that no half-way point separates from the one
printed (`forall_toInt_near_iff`).
-/

open List

/-- A rounding to a nearest integer. -/
structure Rounding where
  toInt : ℚ → ℤ
  near (x : ℚ) : |x - toInt x| ≤ 1 / 2

/-- Ties go up. -/
def Rounding.halfUp : Rounding := ⟨round, abs_sub_round⟩

/-- Ties go down. -/
def Rounding.halfDown : Rounding where
  toInt x := -round (-x)
  near x := by
    have hneg : x - (-round (-x) : ℤ) = -(-x - round (-x)) := by
      push_cast
      ring
    rw [hneg, abs_neg]
    exact abs_sub_round _

/-- Ties go to the even neighbour. -/
def Rounding.halfEven : Rounding where
  toInt x :=
    if Int.fract x < 1 / 2 then ⌊x⌋ else if 1 / 2 < Int.fract x then ⌊x⌋ + 1 else ⌊x⌋ + ⌊x⌋ % 2
  near x := by
    have hsum := Int.floor_add_fract x
    have hnonneg := Int.fract_nonneg x
    have hlt := Int.fract_lt_one x
    rw [abs_le]
    split_ifs
    · constructor <;> linarith
    · push_cast
      constructor <;> linarith
    · rcases Int.emod_two_eq_zero_or_one ⌊x⌋ with heven | hodd
      · rw [heven]
        push_cast
        constructor <;> linarith
      · rw [hodd]
        push_cast
        constructor <;> linarith

/-- `%d`. -/
def printInt (v : ℤ) : List Char := (if v < 0 then ['-'] else []) ++ Nat.toDigits 10 v.natAbs

/-- `%wd`: blanks in front. -/
def printWidth (w : ℕ) (v : ℤ) : List Char := (printInt v).leftpad w ' '

/-- `%0wd`: zeros between the sign and the digits. -/
def printZeros (w : ℕ) (v : ℤ) : List Char :=
  if v < 0 then '-' :: (Nat.toDigits 10 v.natAbs).leftpad (w - 1) '0'
  else (Nat.toDigits 10 v.natAbs).leftpad w '0'

/-- A number with `d` decimal places, given in units of the last of them. -/
def printPlaces (d q : ℕ) : List Char :=
  Nat.toDigits 10 (q / 10 ^ d) ++
    if d = 0 then [] else '.' :: (Nat.toDigits 10 (q % 10 ^ d)).leftpad d '0'

/-- `%.df`, for a number that is not negative. -/
def printFixed (r : Rounding) (d : ℕ) (x : ℚ) : List Char :=
  printPlaces d (r.toInt (x * 10 ^ d)).toNat

/-! ## Widths -/

section Width

variable {w : ℕ} {v : ℤ}

theorem natAbs_lt_pow {k : ℕ} : v.natAbs < 10 ^ k ↔ -10 ^ k < v ∧ v < 10 ^ k := by
  zify
  rw [abs_lt]

theorem length_printWidth (hw : 0 < w) (h0 : 0 ≤ v) (h1 : v < 10 ^ w) :
    (printWidth w v).length = w := by
  rw [printWidth, length_leftpad, printInt, if_neg (by omega), nil_append]
  refine max_eq_left ((Nat.length_toDigits_le_iff (by norm_num) hw).2 (natAbs_lt_pow.2 ⟨?_, h1⟩))
  have hpos : (0 : ℤ) < 10 ^ w := by positivity
  omega

/-- The sign takes the place of a digit. -/
theorem length_printZeros_eq_iff (hw : 1 < w) :
    (printZeros w v).length = w ↔ -10 ^ (w - 1) < v ∧ v < 10 ^ w := by
  have hpos : (0 : ℤ) < 10 ^ w := by positivity
  have hpos' : (0 : ℤ) < 10 ^ (w - 1) := by positivity
  rw [printZeros]
  split_ifs with hneg
  · have hlen := Nat.length_toDigits_le_iff (b := 10) (n := v.natAbs) (k := w - 1) (by norm_num)
      (by omega)
    rw [natAbs_lt_pow] at hlen
    rw [length_cons, length_leftpad]
    omega
  · have hlen := Nat.length_toDigits_le_iff (b := 10) (n := v.natAbs) (k := w) (by norm_num)
      (by omega)
    rw [natAbs_lt_pow] at hlen
    rw [length_leftpad]
    omega

end Width

/-! ## Reading -/

/-- The digits behind the point. -/
def fraction (t : List Char) : List Char := (t.dropWhile (· ≠ '.')).tail

/-- The number that a text with an optional decimal point denotes. -/
def readFixed (t : List Char) : ℚ :=
  (Nat.ofDigitChars 10 (t.takeWhile (· ≠ '.') ++ fraction t) 0 : ℚ) / 10 ^ (fraction t).length

/-- Digits, and perhaps points. -/
def IsNumeral (t : List Char) : Prop := ∀ c ∈ t, c.isDigit ∨ c = '.'

theorem isDigit_of_mem_toDigits {c : Char} {n : ℕ} (h : c ∈ Nat.toDigits 10 n) : c.isDigit :=
  Nat.isDigit_of_mem_toDigits (by norm_num) (by norm_num) h

theorem ne_point_of_mem_toDigits {c : Char} {n : ℕ} (h : c ∈ Nat.toDigits 10 n) : c ≠ '.' := by
  rintro rfl
  exact absurd (isDigit_of_mem_toDigits h) (by decide)

section Parts

variable {w f : List Char}

variable (hw : ∀ c ∈ w, c ≠ '.')
include hw

theorem takeWhile_point : (w ++ '.' :: f).takeWhile (· ≠ '.') = w := by
  rw [takeWhile_append_of_pos (by simpa using hw)]
  simp

theorem fraction_point : fraction (w ++ '.' :: f) = f := by
  rw [fraction, dropWhile_append_of_pos (by simpa using hw)]
  simp

theorem takeWhile_whole : w.takeWhile (· ≠ '.') = w :=
  takeWhile_eq_self_iff.2 (by simpa using hw)

theorem fraction_whole : fraction w = [] := by
  rw [fraction, dropWhile_eq_nil_iff.2 (by simpa using hw), tail_nil]

end Parts

theorem readFixed_toDigits (n : ℕ) : readFixed (Nat.toDigits 10 n) = n := by
  have hw : ∀ c ∈ Nat.toDigits 10 n, c ≠ '.' := fun c ↦ ne_point_of_mem_toDigits
  rw [readFixed, takeWhile_whole hw, fraction_whole hw, append_nil,
    Nat.ofDigitChars_ten_toDigits, length_nil, pow_zero, div_one]

theorem length_leftpad_toDigits {d m : ℕ} (hd : d ≠ 0) (hm : m < 10 ^ d) :
    ((Nat.toDigits 10 m).leftpad d '0').length = d := by
  rw [length_leftpad]
  exact max_eq_left ((Nat.length_toDigits_le_iff (by norm_num) (by omega)).2 hm)

theorem ofDigitChars_leftpad {d m : ℕ} (hd : d ≠ 0) (hm : m < 10 ^ d) (n : ℕ) :
    Nat.ofDigitChars 10 ((Nat.toDigits 10 m).leftpad d '0') n = 10 ^ d * n + m := by
  rw [Nat.ofDigitChars_eq_ofDigitChars_zero, length_leftpad_toDigits hd hm, List.leftpad,
    Nat.ofDigitChars_append, Nat.ofDigitChars_replicate_zero, Nat.mul_zero,
    Nat.ofDigitChars_ten_toDigits]

theorem length_fraction_printPlaces (d q : ℕ) : (fraction (printPlaces d q)).length = d := by
  have hw : ∀ c ∈ Nat.toDigits 10 (q / 10 ^ d), c ≠ '.' := fun c ↦ ne_point_of_mem_toDigits
  rw [printPlaces]
  split_ifs with hd
  · rw [append_nil, fraction_whole hw, hd, length_nil]
  · rw [fraction_point hw, length_leftpad_toDigits hd (Nat.mod_lt _ (by positivity))]

/-- **Reading what is printed.** -/
theorem readFixed_printPlaces (d q : ℕ) : readFixed (printPlaces d q) = q / 10 ^ d := by
  have hw : ∀ c ∈ Nat.toDigits 10 (q / 10 ^ d), c ≠ '.' := fun c ↦ ne_point_of_mem_toDigits
  rw [readFixed, length_fraction_printPlaces, printPlaces]
  split_ifs with hd
  · rw [append_nil, takeWhile_whole hw, fraction_whole hw, append_nil,
      Nat.ofDigitChars_ten_toDigits, hd, pow_zero, Nat.div_one]
  · rw [takeWhile_point hw, fraction_point hw, Nat.ofDigitChars_append,
      Nat.ofDigitChars_ten_toDigits, ofDigitChars_leftpad hd (Nat.mod_lt _ (by positivity)),
      Nat.div_add_mod]

theorem isNumeral_printPlaces (d q : ℕ) : IsNumeral (printPlaces d q) := by
  intro c hc
  rw [printPlaces, mem_append] at hc
  rcases hc with hc | hc
  · exact Or.inl (isDigit_of_mem_toDigits hc)
  · split_ifs at hc with hd
    · cases hc
    · rcases mem_cons.1 hc with rfl | hc
      · exact Or.inr rfl
      · rw [List.leftpad, mem_append] at hc
        rcases hc with hc | hc
        · rw [(mem_replicate.1 hc).2]
          exact Or.inl (by decide)
        · exact Or.inl (isDigit_of_mem_toDigits hc)

/-- A numeral ends where its suffix begins. -/
theorem takeWhile_numeral {w f : List Char} (hw : IsNumeral w)
    (hf : ∀ c ∈ f, ¬(c.isDigit ∨ c = '.')) :
    (w ++ f).takeWhile (fun c ↦ c.isDigit ∨ c = '.') = w := by
  rw [takeWhile_append_of_pos (by simpa [IsNumeral] using hw)]
  cases f with
  | nil => rw [takeWhile_nil, append_nil]
  | cons c f =>
    have hc := hf c mem_cons_self
    rw [takeWhile_cons_of_neg (by simpa using hc), append_nil]

theorem length_printPlaces (d q : ℕ) : (printPlaces d q).length =
    (Nat.toDigits 10 (q / 10 ^ d)).length + if d = 0 then 0 else d + 1 := by
  rw [printPlaces, length_append]
  split_ifs with hd
  · rfl
  · rw [length_cons, length_leftpad_toDigits hd (Nat.mod_lt _ (by positivity))]

/-! ## Rounding -/

section Rounding

variable {r : Rounding} {d : ℕ} {x : ℚ}

theorem Rounding.toInt_nonneg (hx : 0 ≤ x) : 0 ≤ r.toInt x := by
  by_contra hneg
  have hle : (r.toInt x : ℚ) ≤ -1 := by exact_mod_cast (by omega : r.toInt x ≤ -1)
  have hnear := (abs_le.1 (r.near x)).2
  linarith

theorem Rounding.cast_toNat (hx : 0 ≤ x) : ((r.toInt x).toNat : ℚ) = r.toInt x := by
  exact_mod_cast Int.toNat_of_nonneg (r.toInt_nonneg hx)

/-- An odd multiple of `half` separates `s` from `n`, or is `n`. -/
def Splits (half s n : ℚ) : Prop :=
  ∃ k : ℤ, s < (2 * k + 1) * half ∧ (2 * k + 1) * half ≤ n ∨
    n ≤ (2 * k + 1) * half ∧ (2 * k + 1) * half < s

variable {half s n : ℚ}

theorem not_splits_self : ¬Splits half s s := by
  rintro ⟨k, ⟨hlt, hle⟩ | ⟨hle, hlt⟩⟩
  · exact hlt.not_ge hle
  · exact hlt.not_ge hle

theorem lt_of_not_splits (h : ¬Splits half s n) (k : ℤ) (hs : s < (2 * k + 1) * half) :
    n < (2 * k + 1) * half := by
  by_contra hle
  exact h ⟨k, Or.inl ⟨hs, not_lt.1 hle⟩⟩

/-- **Accuracy.** In units of `2 * half`, what a number is rounded to is within half a unit of `s`,
however ties are treated, exactly if no half-way point comes between `s` and the number. -/
theorem forall_toInt_near_iff (hhalf : 0 < half) :
    (∀ r : Rounding, |2 * r.toInt x * half - s| ≤ half) ↔ ¬Splits half s (2 * x * half) := by
  constructor
  · rintro h ⟨k, ⟨hs, hle⟩ | ⟨hle, hs⟩⟩
    · rw [mul_le_mul_iff_of_pos_right hhalf] at hle
      have hround : k + 1 ≤ Rounding.halfUp.toInt x := by
        change _ ≤ round x
        rw [round_eq, Int.le_floor]
        push_cast
        linarith
      have hcast : ((k + 1 : ℤ) : ℚ) * half ≤ Rounding.halfUp.toInt x * half := by gcongr
      push_cast at hcast
      linarith [(abs_le.1 (h .halfUp)).2]
    · rw [mul_le_mul_iff_of_pos_right hhalf] at hle
      have hround : Rounding.halfDown.toInt x ≤ k := by
        change -round (-x) ≤ k
        rw [neg_le, round_eq, Int.le_floor]
        push_cast
        linarith
      have hcast : (Rounding.halfDown.toInt x : ℚ) * half ≤ k * half := by gcongr
      linarith [(abs_le.1 (h .halfDown)).1]
  · intro hsplit r
    obtain ⟨hlow, hhigh⟩ := abs_le.1 (r.near x)
    have hlow' := mul_le_mul_of_nonneg_right hlow hhalf.le
    have hhigh' := mul_le_mul_of_nonneg_right hhigh hhalf.le
    rw [abs_le]
    constructor
    · by_contra hfar
      exact hsplit ⟨r.toInt x, Or.inr ⟨by linarith, by linarith⟩⟩
    · by_contra hfar
      exact hsplit ⟨r.toInt x - 1, Or.inl ⟨by push_cast; linarith, by push_cast; linarith⟩⟩

/-- **Width.** A number that is below `10 ^ k` by half a unit in the last place is not rounded to
`10 ^ k`. -/
theorem length_printFixed_le {k : ℕ} (hk : 0 < k) (hx : 0 ≤ x)
    (hlt : x + 1 / (2 * 10 ^ d) < 10 ^ k) :
    (printFixed r d x).length ≤ k + if d = 0 then 0 else d + 1 := by
  have hpow : (0 : ℚ) < 10 ^ d := by positivity
  have hbound : ((r.toInt (x * 10 ^ d)).toNat : ℚ) < 10 ^ d * 10 ^ k := by
    have hnear := (abs_le.1 (r.near (x * 10 ^ d))).1
    have hscaled := mul_lt_mul_of_pos_left hlt hpow
    have hhalf : (10 : ℚ) ^ d * (x + 1 / (2 * 10 ^ d)) = x * 10 ^ d + 1 / 2 := by
      field_simp
    rw [Rounding.cast_toNat (by positivity)]
    linarith
  have hdiv : (r.toInt (x * 10 ^ d)).toNat / 10 ^ d < 10 ^ k :=
    Nat.div_lt_of_lt_mul (by exact_mod_cast hbound)
  rw [printFixed, length_printPlaces]
  exact Nat.add_le_add_right ((Nat.length_toDigits_le_iff (by norm_num) hk).2 hdiv) _

/-- The other direction, for a number printed without decimal places. -/
theorem lt_length_printFixed_zero {k : ℕ} (hk : 0 < k) (hlt : 10 ^ k ≤ x) :
    k < (printFixed r 0 x).length := by
  have hx : 0 ≤ x := (by positivity : (0 : ℚ) ≤ 10 ^ k).trans hlt
  by_contra hle
  have hlen := length_printPlaces 0 (r.toInt (x * 10 ^ 0)).toNat
  rw [if_pos rfl, pow_zero, pow_zero, mul_one, Nat.div_one, Nat.add_zero] at hlen
  rw [printFixed, pow_zero, mul_one, hlen, not_lt,
    Nat.length_toDigits_le_iff (by norm_num) hk] at hle
  have hnear := (abs_le.1 (r.near x)).2
  have hround : ((r.toInt x).toNat : ℚ) + 1 ≤ 10 ^ k := by exact_mod_cast hle
  rw [Rounding.cast_toNat hx] at hround
  linarith

end Rounding
