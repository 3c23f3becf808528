import Mathlib.Tactic

/-!
# Binary search

`std::lower_bound` halves a range until it is empty. It is usually described for a range in which
the elements that satisfy `p` come first; the position returned is then the end of those. The loop
itself needs no such assumption, and always ends at a boundary: the element before the position
satisfies `p` and the one at the position does not. On a range in order there is one boundary only.
-/

variable {α : Type}

/-- The loop of `std::lower_bound`; `len` falls in every round, so that `fuel` rounds are enough for
a range of that length. -/
def lowerBoundLoop (p : α → Bool) (xs : List α) : ℕ → ℕ → ℕ → ℕ
  | 0, first, _ => first
  | fuel + 1, first, len =>
    if len = 0 then first
    else
      match xs[first + len / 2]? with
      | none => first
      | some middle =>
        if p middle then lowerBoundLoop p xs fuel (first + len / 2 + 1) (len - len / 2 - 1)
        else lowerBoundLoop p xs fuel first (len / 2)

/-- `std::lower_bound(xs.begin(), xs.end(), …)`, where `p x` is the comparison with the value. -/
def lowerBound (p : α → Bool) (xs : List α) : ℕ := lowerBoundLoop p xs xs.length 0 xs.length

/-- The search can stop between `first` and `last`. -/
structure Brackets (p : α → Bool) (xs : List α) (first last : ℕ) : Prop where
  le : first ≤ last
  le_length : last ≤ xs.length
  before : ∀ {i x}, i + 1 = first → xs[i]? = some x → p x = true
  after : ∀ {x}, xs[last]? = some x → p x = false

section

variable {p : α → Bool} {xs : List α}

theorem lowerBoundLoop_brackets {fuel first len : ℕ} (hfuel : len ≤ fuel)
    (h : Brackets p xs first (first + len)) :
    Brackets p xs (lowerBoundLoop p xs fuel first len) (lowerBoundLoop p xs fuel first len) := by
  induction fuel generalizing first len with
  | zero =>
    obtain rfl : len = 0 := by omega
    exact h
  | succ fuel ih =>
    by_cases hlen : len = 0
    · subst hlen
      rw [lowerBoundLoop, if_pos rfl]
      exact h
    have hlength := h.le_length
    have hmiddle : first + len / 2 < xs.length := by omega
    rw [lowerBoundLoop, if_neg hlen, List.getElem?_eq_getElem hmiddle]
    simp only
    split_ifs with hp
    · refine ih (by omega) ⟨by omega, by omega, ?_, ?_⟩
      · intro i x hi hx
        obtain rfl : i = first + len / 2 := by omega
        rw [List.getElem?_eq_getElem hmiddle, Option.some.injEq] at hx
        rw [← hx]
        exact hp
      · intro x hx
        have hend : first + len / 2 + 1 + (len - len / 2 - 1) = first + len := by omega
        rw [hend] at hx
        exact h.after hx
    · refine ih (by omega) ⟨by omega, by omega, h.before, ?_⟩
      intro x hx
      rw [List.getElem?_eq_getElem hmiddle, Option.some.injEq] at hx
      rw [← hx]
      exact Bool.eq_false_of_not_eq_true hp

/-- **The search ends at a boundary**, in order or not. -/
theorem lowerBound_brackets (p : α → Bool) (xs : List α) :
    Brackets p xs (lowerBound p xs) (lowerBound p xs) := by
  refine lowerBoundLoop_brackets (le_refl _) ⟨by omega, by omega, ?_, ?_⟩
  · intro i x hi
    omega
  · intro x hx
    rw [Nat.zero_add, List.getElem?_length] at hx
    cases hx

end
