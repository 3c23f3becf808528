import Mathlib.Tactic

/-!
# Windows into a block of storage

A growable byte buffer is a block of storage with two indices into it, and all that is ever observed
of it is the window between them. The operations here are the three ways such a window changes:
its ends move, data is written at one of its ends, and the window is slid to another place in the
same block.

Sliding is the delicate one, because source and destination may overlap. `copyWithin` is the
element-by-element loop, so that the overlap is really executed; `window_copyWithin` says that a
slide towards the front delivers the original window all the same. The induction needs the
pointwise form `getElem?_copyWithin`: what the loop has already overwritten lies strictly before
what it still has to read.
-/

open List

variable {α : Type}

/-- The entries of `l` at positions `i ≤ k < j`. -/
def window (l : List α) (i j : ℕ) : List α := (l.drop i).take (j - i)

/-- Overwrite `l` from position `i` on with `d`. -/
def writeAt (l : List α) (i : ℕ) (d : List α) : List α :=
  l.take i ++ d ++ l.drop (i + d.length)

/-- Copy `n` entries from `src` to `dst` one after the other, lowest first, inside one block. -/
def copyWithin (l : List α) (src dst : ℕ) : ℕ → List α
  | 0 => l
  | n + 1 =>
    match l[src]? with
    | some a => copyWithin (l.set dst a) (src + 1) (dst + 1) n
    | none => l

/-! ## Windows -/

theorem getElem?_window (l : List α) (i j k : ℕ) :
    (window l i j)[k]? = if k < j - i then l[i + k]? else none := by
  rw [window, getElem?_take, getElem?_drop]

theorem length_window {l : List α} {i j : ℕ} (hj : j ≤ l.length) :
    (window l i j).length = j - i := by
  rw [window, length_take, length_drop]
  omega

@[simp] theorem window_self (l : List α) (i : ℕ) : window l i i = [] := by
  rw [window, Nat.sub_self, take_zero]

/-- Moving the lower end up drops from the front. -/
theorem window_add_left (l : List α) (i j n : ℕ) : window l (i + n) j = (window l i j).drop n := by
  rw [window, window, drop_take, drop_drop, Nat.sub_add_eq]

/-- Moving the upper end down drops from the back. -/
theorem window_sub_right (l : List α) (i j n : ℕ) :
    window l i (j - n) = (window l i j).take (j - i - n) := by
  rw [window, window, take_take]
  congr 1
  omega

theorem window_append_right {l : List α} {j : ℕ} (hj : j ≤ l.length) (i : ℕ) (z : List α) :
    window (l ++ z) i j = window l i j := by
  apply ext_getElem?
  intro k
  rw [getElem?_window, getElem?_window]
  split
  · rw [getElem?_append_left (by omega)]
  · rfl

/-! ## Writing -/

theorem length_writeAt {l d : List α} {i : ℕ} (h : i + d.length ≤ l.length) :
    (writeAt l i d).length = l.length := by
  rw [writeAt, length_append, length_append, length_take, length_drop]
  omega

theorem writeAt_append {x y d : List α} (z : List α) {i : ℕ} (hi : x.length = i)
    (hd : y.length = d.length) : writeAt (x ++ y ++ z) i d = x ++ d ++ z := by
  subst hi
  rw [writeAt, ← hd, append_assoc x y z, take_left, ← drop_drop, drop_left,
    drop_left]

theorem window_append {x y : List α} (z : List α) {i j : ℕ} (hi : x.length = i)
    (hj : i + y.length = j) : window (x ++ y ++ z) i j = y := by
  subst hi hj
  rw [window, append_assoc, drop_left, Nat.add_sub_cancel_left, take_left]

theorem getElem?_writeAt {l d : List α} {i : ℕ} (h : i + d.length ≤ l.length) (k : ℕ) :
    (writeAt l i d)[k]? =
      if k < i then l[k]? else if k < i + d.length then d[k - i]? else l[k]? := by
  have hlen : (l.take i).length = i := by
    rw [length_take]
    omega
  rw [writeAt]
  by_cases h1 : k < i
  · rw [if_pos h1, append_assoc, getElem?_append_left (by omega),
      getElem?_take, if_pos h1]
  · rw [if_neg h1]
    by_cases h2 : k < i + d.length
    · rw [if_pos h2, append_assoc, getElem?_append_right (by omega), hlen,
        getElem?_append_left (by omega)]
    · rw [if_neg h2, getElem?_append_right (by rw [length_append, hlen]; omega),
        length_append, hlen, getElem?_drop]
      congr 1
      omega

/-- Writing at the upper end and moving it past the data appends the data. -/
theorem window_writeAt_upper {l d : List α} {i j : ℕ} (hij : i ≤ j)
    (h : j + d.length ≤ l.length) :
    window (writeAt l j d) i (j + d.length) = window l i j ++ d := by
  have hlen : (window l i j).length = j - i := length_window (by omega)
  apply ext_getElem?
  intro k
  rw [getElem?_window, getElem?_writeAt h]
  by_cases h1 : k < j - i
  · rw [if_pos (by omega), if_pos (by omega), getElem?_append_left (by omega),
      getElem?_window, if_pos h1]
  · rw [getElem?_append_right (by omega), hlen]
    by_cases h2 : k < j + d.length - i
    · rw [if_pos h2, if_neg (by omega), if_pos (by omega)]
      congr 1
      omega
    · rw [if_neg h2, eq_comm, getElem?_eq_none (by omega)]

/-- Writing just below the lower end and moving it before the data prepends the data. -/
theorem window_writeAt_lower {l d : List α} {i j : ℕ} (hd : d.length ≤ i) (hij : i ≤ j)
    (hj : j ≤ l.length) :
    window (writeAt l (i - d.length) d) (i - d.length) j = d ++ window l i j := by
  apply ext_getElem?
  intro k
  rw [getElem?_window, getElem?_writeAt (by omega)]
  by_cases h1 : k < d.length
  · rw [if_pos (by omega), if_neg (by omega), if_pos (by omega), getElem?_append_left h1]
    congr 1
    omega
  · rw [getElem?_append_right (by omega), getElem?_window]
    by_cases h2 : k < j - (i - d.length)
    · rw [if_pos h2, if_neg (by omega), if_neg (by omega), if_pos (by omega)]
      congr 1
      omega
    · rw [if_neg h2, if_neg (by omega)]

/-! ## Sliding -/

theorem length_copyWithin (l : List α) (src dst n : ℕ) :
    (copyWithin l src dst n).length = l.length := by
  induction n generalizing l src dst with
  | zero => rfl
  | succ n ih =>
    rw [copyWithin]
    split
    · rw [ih, length_set]
    · rfl

/-- The loop invariant, pointwise. Since `dst ≤ src`, the entry the loop sets at `dst` is never one
of the entries `src + 1, …` it goes on to read. -/
theorem getElem?_copyWithin {n : ℕ} : ∀ {l : List α} {src dst : ℕ}, dst ≤ src →
    src + n ≤ l.length → ∀ k, (copyWithin l src dst n)[k]? =
      if dst ≤ k ∧ k < dst + n then l[src + (k - dst)]? else l[k]? := by
  induction n with
  | zero =>
    intro l src dst _ _ k
    rw [copyWithin, if_neg (by omega)]
  | succ n ih =>
    intro l src dst hle hlen k
    have hsrc : src < l.length := by omega
    rw [copyWithin, getElem?_eq_getElem hsrc]
    simp only
    rw [ih (by omega) (by rw [length_set]; omega), getElem?_set, getElem?_set]
    by_cases h1 : dst + 1 ≤ k ∧ k < dst + 1 + n
    · rw [if_pos h1, if_neg (by omega), if_pos (by omega)]
      congr 1
      omega
    · rw [if_neg h1]
      by_cases h2 : dst = k
      · rw [if_pos h2, if_pos (by omega), if_pos (by omega), getElem?_eq_getElem (by omega)]
        congr 2
        omega
      · rw [if_neg h2, if_neg (by omega)]

/-- **A slide towards the front delivers the original window**, overlap or not. -/
theorem window_copyWithin {l : List α} {src dst n : ℕ} (hle : dst ≤ src)
    (hlen : src + n ≤ l.length) :
    window (copyWithin l src dst n) dst (dst + n) = window l src (src + n) := by
  apply ext_getElem?
  intro k
  rw [getElem?_window, getElem?_window, getElem?_copyWithin hle hlen]
  by_cases h : k < n
  · rw [if_pos (by omega), if_pos (by omega), if_pos (by omega)]
    congr 1
    omega
  · rw [if_neg (by omega), if_neg (by omega)]
