import Fishnet.Library.Checked
import Fishnet.Library.Window

/-!
# Reads and writes through a pointer

A function that fills a character array of its caller writes through a pointer that it moves on. The
array is a list, the pointer is an index, and an access that leaves the array is a fault. What has
been written so far is one `writeAt`: a write right behind it makes it longer (`store_writeAt`), and
`std::reverse` over a part of it reverses that part (`reverseRange_writeAt`).
-/

open List

section ArrayWrite

variable {α : Type} {m d e : List α} {i : ℕ}

/-- The cells from `i` on are overwritten with `d`; all of them must be in the array. -/
def store (m : List α) (i : ℕ) (d : List α) : Checked (List α) :=
  if i + d.length ≤ m.length then .ok (writeAt m i d) else .error .badAccess

/-- The first `n` cells of a block are read; all of them must be there. -/
def load (m : List α) (n : ℕ) : Checked (List α) :=
  if n ≤ m.length then .ok (m.take n) else .error .badAccess

/-- `std::reverse` of the cells from `i` to `j`. -/
def reverseRange (m : List α) (i j : ℕ) : List α := writeAt m i (window m i j).reverse

theorem load_of_le {n : ℕ} (h : n ≤ m.length) : load m n = .ok (m.take n) := if_pos h

theorem store_of_le (h : i + d.length ≤ m.length) : store m i d = .ok (writeAt m i d) := if_pos h

/-- An array is what stands before a part of it, the part, and what stands behind. -/
theorem exists_eq_append (h : i + d.length ≤ m.length) :
    ∃ x y z, m = x ++ y ++ z ∧ x.length = i ∧ y.length = d.length := by
  refine ⟨m.take i, window m i (i + d.length), m.drop (i + d.length), ?_, ?_, ?_⟩
  · rw [window, Nat.add_sub_cancel_left, ← drop_drop, append_assoc,
      take_append_drop, take_append_drop]
  · rw [length_take]
    omega
  · rw [length_window h, Nat.add_sub_cancel_left]

variable (h : i + (d ++ e).length ≤ m.length)
include h

theorem writeAt_writeAt_append :
    writeAt (writeAt m i d) (i + d.length) e = writeAt m i (d ++ e) := by
  obtain ⟨x, y, z, rfl, rfl, hy⟩ := exists_eq_append h
  rw [length_append] at hy
  have hsplit : x ++ y ++ z = x ++ y.take d.length ++ (y.drop d.length ++ z) := by
    rw [append_assoc x (y.take d.length), ← append_assoc (y.take d.length),
      take_append_drop, append_assoc]
  have hfront : (y.take d.length).length = d.length := by
    rw [length_take]
    omega
  have hback : (y.drop d.length).length = e.length := by
    rw [length_drop]
    omega
  have hwhole : writeAt (x ++ y ++ z) x.length (d ++ e) = x ++ (d ++ e) ++ z :=
    writeAt_append z rfl (by rw [length_append, hy])
  rw [hwhole, hsplit, writeAt_append _ rfl hfront, ← append_assoc (x ++ d),
    writeAt_append z length_append hback, append_assoc x]

/-- **A write right behind what has been written.** -/
theorem store_writeAt :
    store (writeAt m i d) (i + d.length) e = .ok (writeAt m i (d ++ e)) := by
  have hlen : i + d.length + e.length ≤ m.length := by
    rw [length_append] at h
    omega
  rw [store_of_le, writeAt_writeAt_append h]
  rw [length_writeAt (by omega)]
  exact hlen

/-- **Reversing a part of what has been written.** -/
theorem reverseRange_writeAt :
    reverseRange (writeAt m i (d ++ e)) i (i + d.length) = writeAt m i (d.reverse ++ e) := by
  obtain ⟨x, y, z, rfl, rfl, hy⟩ := exists_eq_append h
  have hrev : (d.reverse ++ e).length = (d ++ e).length := by
    rw [length_append, length_append, length_reverse]
  rw [writeAt_append z rfl hy, writeAt_append z rfl (hy.trans hrev.symm), reverseRange,
    ← append_assoc x, append_assoc (x ++ d), window_append _ rfl rfl,
    writeAt_append _ rfl (length_reverse).symm, append_assoc, append_assoc,
    append_assoc]

end ArrayWrite
