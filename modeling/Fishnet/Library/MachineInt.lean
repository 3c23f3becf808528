import Fishnet.Library.Checked

/-!
# Signed machine integers

An expression of C over a signed type has a value only if every result on the way fits the type;
an overflow is undefined. `CInt w` is the type of such expressions over integers of `w` bits. Its
operators are the operators of C, so that a formula is written as the source has it and each of its
intermediate results is checked. Division and remainder truncate towards zero.

The lemmas about the operators have the range of the result as a side condition, and rewriting with
them turns a formula into its value; on non-negative operands division is the division of `ℤ`. In
the other direction, `CInt.Evals` says what a formula can return without saying that it does.

Code that is generic in its integer type, signed or unsigned, takes an `IntType`. The truncating
quotient and remainder of a value lie between zero and the value, so they fit every type it fits.
-/

/-- A computation with a signed result of `w` bits. -/
structure CInt (w : ℕ) where
  /-- The value, if every result on the way fits. -/
  run : Checked ℤ

namespace CInt

variable {v w : ℕ} {a b : CInt w} {x y z : ℤ}

/-- The range of the type. -/
def Fits (w : ℕ) (x : ℤ) : Prop := -2 ^ (w - 1) ≤ x ∧ x < 2 ^ (w - 1)

instance (w : ℕ) (x : ℤ) : Decidable (Fits w x) := inferInstanceAs (Decidable (_ ∧ _))

theorem fits32 : Fits 32 x ↔ -2147483648 ≤ x ∧ x < 2147483648 := by
  unfold Fits
  norm_num

theorem fits64 : Fits 64 x ↔ -9223372036854775808 ≤ x ∧ x < 9223372036854775808 := by
  unfold Fits
  norm_num

/-- A value of the type. -/
def ok (x : ℤ) : CInt w := ⟨.ok x⟩

@[simp] theorem run_ok : (ok x : CInt w).run = .ok x := rfl

/-- A result, if it is in the range. -/
def fit (x : ℤ) : CInt w := ⟨if Fits w x then .ok x else .error .overflow⟩

/-- An operator: both operands are evaluated, the second must be in the operator's domain, and the
result must fit. -/
def operator (dom : ℤ → Prop) [DecidablePred dom] (f : ℤ → ℤ → ℤ) (a b : CInt w) : CInt w :=
  ⟨do
    let x ← a.run
    let y ← b.run
    if dom y then (fit (f x y) : CInt w).run else .error .overflow⟩

instance : Add (CInt w) := ⟨operator (fun _ ↦ True) (· + ·)⟩

instance : Sub (CInt w) := ⟨operator (fun _ ↦ True) (· - ·)⟩

instance : Mul (CInt w) := ⟨operator (fun _ ↦ True) (· * ·)⟩

instance : Div (CInt w) := ⟨operator (· ≠ 0) Int.tdiv⟩

instance : Mod (CInt w) := ⟨operator (· ≠ 0) Int.tmod⟩

instance (n : ℕ) : OfNat (CInt w) n := ⟨fit (OfNat.ofNat n)⟩

/-- The conversion to another width keeps the value modulo the size of the type. -/
def cast (a : CInt v) : CInt w := ⟨a.run.map fun x ↦ x.bmod (2 ^ w)⟩

/-- Whatever a computation returns is the value `x`; it need not return. -/
def Evals (a : CInt w) (x : ℤ) : Prop := ∀ z, a = ok z → z = x

/-! ## Values -/

theorem ok_inj : (ok x : CInt w) = ok y ↔ x = y := by
  simp [ok]

theorem eq_ok_iff : a = ok x ↔ a.run = .ok x := by
  cases a
  simp [ok]

theorem fit_of_fits (h : Fits w x) : (fit x : CInt w) = ok x := by
  rw [fit, if_pos h, ok]

theorem eq_of_fit (h : (fit x : CInt w).run = .ok z) : x = z := by
  unfold fit at h
  split_ifs at h
  exact Except.ok.inj h

theorem ofNat_eq {n : ℕ} (h : Fits w (OfNat.ofNat n)) :
    (OfNat.ofNat n : CInt w) = ok (OfNat.ofNat n) := fit_of_fits h

section Operators

variable {dom : ℤ → Prop} [DecidablePred dom] {f : ℤ → ℤ → ℤ}

theorem operator_ok (hdom : dom y) (h : Fits w (f x y)) :
    operator dom f (ok x : CInt w) (ok y) = ok (f x y) := by
  rw [eq_ok_iff]
  change (if dom y then (fit (f x y) : CInt w).run else _) = _
  rw [if_pos hdom, fit_of_fits h, run_ok]

/-- An operator that has a value applies to the values of its operands. -/
theorem Evals.operator (ha : Evals a x) (hb : Evals b y) :
    Evals (CInt.operator dom f a b) (f x y) := by
  intro z h
  rw [eq_ok_iff] at h
  obtain ⟨x', hx, h⟩ := bind_eq_ok.1 h
  obtain ⟨y', hy, h⟩ := bind_eq_ok.1 h
  split_ifs at h
  rw [← ha x' (eq_ok_iff.2 hx), ← hb y' (eq_ok_iff.2 hy)]
  exact (eq_of_fit h).symm

end Operators

theorem ok_add (h : Fits w (x + y)) : (ok x + ok y : CInt w) = ok (x + y) :=
  operator_ok trivial h

theorem ok_sub (h : Fits w (x - y)) : (ok x - ok y : CInt w) = ok (x - y) :=
  operator_ok trivial h

theorem ok_mul (h : Fits w (x * y)) : (ok x * ok y : CInt w) = ok (x * y) :=
  operator_ok trivial h

theorem ok_tdiv (hy : y ≠ 0) (h : Fits w (x.tdiv y)) :
    (ok x / ok y : CInt w) = ok (x.tdiv y) := operator_ok hy h

theorem ok_tmod (hy : y ≠ 0) (h : Fits w (x.tmod y)) :
    (ok x % ok y : CInt w) = ok (x.tmod y) := operator_ok hy h

theorem ok_div (hx : 0 ≤ x) (hy : y ≠ 0) (h : Fits w (x / y)) :
    (ok x / ok y : CInt w) = ok (x / y) := by
  have htdiv : x.tdiv y = x / y := Int.tdiv_eq_ediv_of_nonneg hx
  rw [← htdiv] at h ⊢
  exact ok_tdiv hy h

theorem ok_mod (hx : 0 ≤ x) (hy : y ≠ 0) (h : Fits w (x % y)) :
    (ok x % ok y : CInt w) = ok (x % y) := by
  have htmod : x.tmod y = x % y := Int.tmod_eq_emod_of_nonneg hx
  rw [← htmod] at h ⊢
  exact ok_tmod hy h

theorem evals_ok (x : ℤ) : Evals (ok x : CInt w) x := fun _ h ↦ (ok_inj.1 h).symm

theorem evals_ofNat (n : ℕ) : Evals (OfNat.ofNat n : CInt w) (OfNat.ofNat n) :=
  fun _ h ↦ (eq_of_fit (eq_ok_iff.1 h)).symm

theorem Evals.add (ha : Evals a x) (hb : Evals b y) : Evals (a + b) (x + y) := ha.operator hb

theorem Evals.sub (ha : Evals a x) (hb : Evals b y) : Evals (a - b) (x - y) := ha.operator hb

theorem Evals.mul (ha : Evals a x) (hb : Evals b y) : Evals (a * b) (x * y) := ha.operator hb

theorem Evals.div (ha : Evals a x) (hb : Evals b y) : Evals (a / b) (x.tdiv y) := ha.operator hb

theorem cast_ok (h : Fits w x) (hw : 0 < w) : (cast (ok x : CInt v) : CInt w) = ok x := by
  obtain ⟨n, rfl⟩ : ∃ n, w = n + 1 := ⟨w - 1, by omega⟩
  obtain ⟨hlow, hhigh⟩ := h
  rw [Nat.add_sub_cancel] at hlow hhigh
  refine eq_ok_iff.2 (congrArg Except.ok (Int.bmod_eq_of_le ?_ ?_))
  · push_cast
    omega
  · push_cast
    omega

/-- **Rounding down.** A negative remainder is corrected by the divisor, and the quotient by one. -/
theorem floor_of_trunc {x n : ℤ} (hn : 0 < n) :
    (x.tmod n < 0 → x.tmod n + n = x % n ∧ x.tdiv n - 1 = x / n) ∧
      (¬x.tmod n < 0 → x.tmod n = x % n ∧ x.tdiv n = x / n) := by
  have hmod0 := Int.emod_nonneg x hn.ne'
  have hmod1 := Int.emod_lt_of_pos x hn
  rw [Int.tmod_eq_emod, Int.tdiv_eq_ediv, Int.sign_eq_one_of_pos hn]
  split_ifs <;> omega

end CInt

/-! ## Types of either sign -/

/-- An integer type of C. -/
structure IntType where
  bits : ℕ
  signed : Bool
  deriving DecidableEq, Repr

namespace IntType

variable {T : IntType} {x y : ℤ}

/-- The range of the type. -/
def Holds (T : IntType) (x : ℤ) : Prop :=
  if T.signed then CInt.Fits T.bits x else 0 ≤ x ∧ x < 2 ^ T.bits

instance (T : IntType) (x : ℤ) : Decidable (T.Holds x) :=
  inferInstanceAs (Decidable (if T.signed then _ else _))

/-- A result, if it is in the range. -/
def fit (T : IntType) (x : ℤ) : Checked ℤ := if T.Holds x then .ok x else .error .overflow

theorem fit_of_holds (h : T.Holds x) : T.fit x = .ok x := if_pos h

/-- What lies between zero and a value of the type is a value of the type. -/
theorem Holds.between (h : T.Holds x) (hpos : 0 ≤ x → 0 ≤ y ∧ y ≤ x)
    (hneg : x ≤ 0 → x ≤ y ∧ y ≤ 0) : T.Holds y := by
  unfold Holds CInt.Fits at *
  have hpow : (0 : ℤ) < 2 ^ (T.bits - 1) := by positivity
  split_ifs at * <;> omega

theorem Holds.tdiv (h : T.Holds x) (hy : 0 < y) : T.Holds (x.tdiv y) := by
  have hle : (x.tdiv y).natAbs ≤ x.natAbs := by
    rw [Int.natAbs_tdiv]
    exact Nat.div_le_self _ _
  refine h.between (fun hx ↦ ?_) (fun hx ↦ ?_)
  · have hnonneg := Int.tdiv_nonneg hx hy.le
    omega
  · have hnonneg := Int.tdiv_nonneg (Int.neg_nonneg_of_nonpos hx) hy.le
    rw [Int.neg_tdiv] at hnonneg
    omega

theorem Holds.tmod (h : T.Holds x) (y : ℤ) : T.Holds (x.tmod y) := by
  have hle : (x.tmod y).natAbs ≤ x.natAbs := by
    rw [Int.natAbs_tmod]
    exact Nat.mod_le _ _
  refine h.between (fun hx ↦ ?_) (fun hx ↦ ?_)
  · have hnonneg := Int.tmod_nonneg y hx
    omega
  · have hnonneg := Int.tmod_nonneg y (Int.neg_nonneg_of_nonpos hx)
    rw [Int.neg_tmod] at hnonneg
    omega

end IntType
