import Fishnet.Library.Checked

/-!
# Machine sizes and growable arrays

`size_t` is a 64-bit word, so its sums and differences wrap. The two operations below keep the
wrapping in the model; `sizeAdd_of_lt` and `sizeSub_of_le` are how a proof gets rid of it once it
has shown that the mathematical result is in range.

A `std::vector<char>` cannot hold `sizeBound` elements or more: its `max_size()` is the largest
pointer difference. Asking for that much is the fault `lengthError`, which is what keeps every size
that occurs below the range in which two of them could wrap when added.
-/

/-- `2 ^ 64`: where `size_t` wraps. -/
def sizeMod : ℕ := 2 ^ 64

/-- `2 ^ 63`: one more than the largest `max_size()` of a byte vector. -/
def sizeBound : ℕ := 2 ^ 63

/-- `a + b` in `size_t`. -/
def sizeAdd (a b : ℕ) : ℕ := (a + b) % sizeMod

/-- `a - b` in `size_t`. -/
def sizeSub (a b : ℕ) : ℕ := (a + (sizeMod - b)) % sizeMod

theorem sizeAdd_of_lt {a b : ℕ} (h : a + b < sizeMod) : sizeAdd a b = a + b :=
  Nat.mod_eq_of_lt h

theorem sizeSub_of_le {a b : ℕ} (h : b ≤ a) (ha : a < sizeMod) : sizeSub a b = a - b := by
  rw [sizeSub, show a + (sizeMod - b) = (a - b) + sizeMod from by omega, Nat.add_mod_right,
    Nat.mod_eq_of_lt (by omega)]

theorem sizeAdd_of_bounded {a b : ℕ} (ha : a < sizeBound) (hb : b < sizeBound) :
    sizeAdd a b = a + b := by
  apply sizeAdd_of_lt
  simp only [sizeBound, sizeMod] at *
  omega

theorem sizeSub_of_bounded {a b : ℕ} (h : b ≤ a) (ha : a < sizeBound) : sizeSub a b = a - b := by
  apply sizeSub_of_le h
  simp only [sizeBound, sizeMod] at *
  omega

variable {α : Type} [Inhabited α]

/-- `vector::resize`: cut off or pad with value-initialised elements. -/
def resize (l : List α) (n : ℕ) : Checked (List α) :=
  if sizeBound ≤ n then .error .lengthError
  else .ok (l.take n ++ List.replicate (n - l.length) default)

theorem resize_of_bounded (l : List α) {n : ℕ} (hn : n < sizeBound) :
    resize l n = .ok (l.take n ++ List.replicate (n - l.length) default) :=
  if_neg (by omega)

theorem resize_of_sizeBound_le (l : List α) {n : ℕ} (hn : sizeBound ≤ n) :
    resize l n = .error .lengthError := if_pos hn

theorem resize_grow {l : List α} {n : ℕ} (hl : l.length ≤ n) (hn : n < sizeBound) :
    resize l n = .ok (l ++ List.replicate (n - l.length) default) := by
  rw [resize_of_bounded l hn, List.take_of_length_le hl]
