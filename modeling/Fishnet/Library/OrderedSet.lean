import Mathlib.Tactic

/-!
# Ordered sets

`std::set<T>` keeps its elements in increasing order without repetition. An `OrderedSet` is a
strictly increasing list, so that the invariant of the container is part of every value and
iteration from `begin()` is the list itself.

`insert` and `erase` change nothing when there is nothing to do. What the C++ functions report
besides (was the element new, how many were erased) is membership in the set before. `lower_bound`
cuts a set into the elements `below` a bound and those `notBelow` it.
-/

/-- A finite set with its elements in increasing order. -/
structure OrderedSet (α : Type) [LinearOrder α] where
  /-- The elements, from `begin()` to `end()`. -/
  toList : List α
  sorted : toList.Pairwise (· < ·)

namespace OrderedSet

open List

variable {α : Type} [LinearOrder α] {s : OrderedSet α} {x : α}

instance : Membership α (OrderedSet α) where
  mem s x := x ∈ s.toList

theorem mem_def : x ∈ s ↔ x ∈ s.toList := Iff.rfl

instance (x : α) (s : OrderedSet α) : Decidable (x ∈ s) :=
  inferInstanceAs (Decidable (x ∈ s.toList))

instance : EmptyCollection (OrderedSet α) where
  emptyCollection := ⟨[], List.Pairwise.nil⟩

@[simp] theorem notMem_empty (x : α) : x ∉ (∅ : OrderedSet α) := not_mem_nil

/-- `size()`. -/
def size (s : OrderedSet α) : ℕ := s.toList.length

/-- Sets with the same elements are equal: the order of the list is determined by them. -/
theorem ext_mem {s s' : OrderedSet α} (h : ∀ x, x ∈ s ↔ x ∈ s') : s = s' := by
  obtain ⟨l, hl⟩ := s
  obtain ⟨l', hl'⟩ := s'
  congr
  exact hl.eq_of_mem_iff hl' h

theorem nodup (s : OrderedSet α) : s.toList.Nodup := s.sorted.imp ne_of_lt

/-! ## Insertion and removal -/

/-- `insert(x)`: the position is found by comparison, an element that is there is kept. -/
def insertList (x : α) : List α → List α
  | [] => [x]
  | y :: l => if x < y then x :: y :: l else if x = y then y :: l else y :: insertList x l

theorem mem_insertList {x y : α} {l : List α} : y ∈ insertList x l ↔ y = x ∨ y ∈ l := by
  induction l with
  | nil => simp [insertList]
  | cons z l ih =>
    rw [insertList]
    split_ifs with hlt heq
    · exact mem_cons
    · subst heq
      simp
    · rw [mem_cons, ih, mem_cons]
      tauto

theorem insertList_sorted {l : List α} (h : l.Pairwise (· < ·)) :
    (insertList x l).Pairwise (· < ·) := by
  induction l with
  | nil => exact pairwise_singleton _ _
  | cons z l ih =>
    obtain ⟨hz, hl⟩ := pairwise_cons.mp h
    rw [insertList]
    split_ifs with hlt heq
    · refine pairwise_cons.mpr ⟨fun y hy ↦ ?_, h⟩
      rcases mem_cons.mp hy with rfl | hy
      · exact hlt
      · exact hlt.trans (hz y hy)
    · exact h
    · refine pairwise_cons.mpr ⟨fun y hy ↦ ?_, ih hl⟩
      rcases mem_insertList.mp hy with rfl | hy
      · exact lt_of_le_of_ne (not_lt.mp hlt) (Ne.symm heq)
      · exact hz y hy

theorem length_insertList {l : List α} (h : x ∉ l) : (insertList x l).length = l.length + 1 := by
  induction l with
  | nil => rfl
  | cons z l ih =>
    rw [mem_cons, not_or] at h
    rw [insertList, if_neg h.1]
    split_ifs with hlt
    · rfl
    · rw [length_cons, ih h.2, length_cons]

/-- `insert(x)`. Its `second` is `x ∉ s`. -/
def insert (s : OrderedSet α) (x : α) : OrderedSet α :=
  ⟨insertList x s.toList, insertList_sorted s.sorted⟩

@[simp] theorem mem_insert {x y : α} : y ∈ s.insert x ↔ y = x ∨ y ∈ s :=
  mem_insertList

theorem size_insert (h : x ∉ s) : (s.insert x).size = s.size + 1 :=
  length_insertList h

/-- `erase(x)`. Its result is the number of elements erased, one if `x ∈ s`. -/
def erase (s : OrderedSet α) (x : α) : OrderedSet α :=
  ⟨s.toList.erase x, s.sorted.sublist erase_sublist⟩

@[simp] theorem mem_erase {x y : α} : y ∈ s.erase x ↔ y ≠ x ∧ y ∈ s :=
  s.nodup.mem_erase_iff

theorem size_erase (h : x ∈ s) : (s.erase x).size + 1 = s.size :=
  length_erase_add_one h

/-! ## The smallest element -/

/-- `begin()`, unless it is `end()`. -/
def min? (s : OrderedSet α) : Option α := s.toList.head?

theorem min?_eq_none : s.min? = none ↔ ∀ x, x ∉ s := by
  rw [min?, head?_eq_none_iff, eq_nil_iff_forall_not_mem]
  rfl

theorem min?_eq_some : s.min? = some x ↔ x ∈ s ∧ ∀ y ∈ s, x ≤ y := by
  obtain ⟨l, hl⟩ := s
  constructor
  · intro h
    cases l with
    | nil => cases h
    | cons z l =>
      cases h
      refine ⟨mem_cons_self, fun y hy ↦ ?_⟩
      rcases mem_cons.mp hy with rfl | hy
      · exact le_rfl
      · exact (rel_of_pairwise_cons hl hy).le
  · rintro ⟨hx, hle⟩
    cases l with
    | nil => cases hx
    | cons z l =>
      rcases mem_cons.mp hx with rfl | hx
      · rfl
      · exact absurd (hle z mem_cons_self) (not_le.mpr (rel_of_pairwise_cons hl hx))

theorem exists_min? (h : x ∈ s) : ∃ y, s.min? = some y := by
  cases hs : s.min? with
  | none => exact absurd h (min?_eq_none.mp hs x)
  | some y => exact ⟨y, rfl⟩

/-! ## Cutting at a bound -/

/-- From `begin()` to `lower_bound(x)`. -/
def below (s : OrderedSet α) (x : α) : List α := s.toList.takeWhile (· < x)

/-- From `lower_bound(x)` on. -/
def notBelow (s : OrderedSet α) (x : α) : OrderedSet α :=
  ⟨s.toList.dropWhile (· < x), s.sorted.sublist (dropWhile_sublist _)⟩

theorem below_sorted (s : OrderedSet α) (x : α) : (s.below x).Pairwise (· < ·) :=
  s.sorted.sublist (takeWhile_sublist _)

theorem le_of_mem_notBelow {x y : α} (h : y ∈ s.notBelow x) : x ≤ y := by
  obtain ⟨l, hl⟩ := s
  change y ∈ l.dropWhile (· < x) at h
  induction l with
  | nil => cases h
  | cons z l ih =>
    rw [dropWhile_cons] at h
    split_ifs at h with hz
    · exact ih (List.Pairwise.of_cons hl) h
    · have hxz : x ≤ z := not_lt.mp (by simpa using hz)
      rcases mem_cons.mp h with rfl | h
      · exact hxz
      · exact hxz.trans (rel_of_pairwise_cons hl h).le

theorem lt_of_mem_below {x y : α} (h : y ∈ s.below x) : y < x := by
  simpa using all_eq_true.mp all_takeWhile y h

theorem mem_iff_below_or_notBelow {x y : α} : y ∈ s ↔ y ∈ s.below x ∨ y ∈ s.notBelow x := by
  rw [mem_def, ← takeWhile_append_dropWhile (p := (· < x)) (l := s.toList), mem_append]
  rfl

@[simp] theorem mem_below {x y : α} : y ∈ s.below x ↔ y ∈ s ∧ y < x := by
  constructor
  · intro h
    exact ⟨mem_iff_below_or_notBelow.mpr (Or.inl h), lt_of_mem_below h⟩
  · rintro ⟨h, hlt⟩
    rcases mem_iff_below_or_notBelow.mp h with h | h
    · exact h
    · exact absurd hlt (not_lt.mpr (le_of_mem_notBelow h))

@[simp] theorem mem_notBelow {x y : α} : y ∈ s.notBelow x ↔ y ∈ s ∧ x ≤ y := by
  constructor
  · intro h
    exact ⟨mem_iff_below_or_notBelow.mpr (Or.inr h), le_of_mem_notBelow h⟩
  · rintro ⟨h, hle⟩
    rcases mem_iff_below_or_notBelow.mp h with h | h
    · exact absurd (lt_of_mem_below h) (not_lt.mpr hle)
    · exact h

theorem mem_foldl_erase {l : List α} : x ∈ l.foldl erase s ↔ x ∈ s ∧ x ∉ l := by
  induction l generalizing s with
  | nil => simp
  | cons y l ih =>
    rw [foldl_cons, ih, mem_erase, mem_cons, not_or]
    tauto

theorem foldl_erase_below (s : OrderedSet α) (x : α) :
    (s.below x).foldl erase s = s.notBelow x := by
  apply ext_mem
  intro y
  rw [mem_foldl_erase, mem_below, mem_notBelow, ← not_lt]
  tauto

end OrderedSet
