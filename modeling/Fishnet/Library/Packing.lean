import Mathlib.Algebra.BigOperators.Group.List.Basic
import Mathlib.Data.Nat.Find
import Mathlib.Tactic

/-!
# Lists that fit

Elements have weights, and a list fits if its weights sum up to at most the capacity. When does the
length of a list alone decide whether it fits (`FitsByLength`)? It does if all weights are equal,
and also if no two elements fit together.

If it does not, an exchange argument gives two elements of which one fits where the other does not
(`exists_exchange`), and from there a list with room for either of two sets of elements
(`exists_of_not_fitsByLength`).
-/

open List

section Packing

variable {α : Type} {w : α → ℕ} {E : Set α} {capacity : ℕ}

/-- A list of elements of `E` fits exactly if it has at most `K` of them. -/
def FitsByLength (w : α → ℕ) (E : Set α) (capacity K : ℕ) : Prop :=
  ∀ l : List α, (∀ x ∈ l, x ∈ E) → ((l.map w).sum ≤ capacity ↔ l.length ≤ K)

theorem fitsByLength_of_eq {n : ℕ} (hn : 0 < n) (h : ∀ x ∈ E, w x = n) :
    FitsByLength w E capacity (capacity / n) := by
  intro l hl
  have hmap : l.map w = List.replicate l.length n := by
    refine eq_replicate_iff.mpr ⟨length_map w, fun m hm ↦ ?_⟩
    obtain ⟨x, hx, rfl⟩ := mem_map.mp hm
    exact h x (hl x hx)
  rw [hmap, sum_replicate, smul_eq_mul, Nat.le_div_iff_mul_le hn]

theorem length_le_sum_map {l : List α} (h : ∀ x ∈ l, 0 < w x) : l.length ≤ (l.map w).sum := by
  rw [← length_map w]
  refine length_le_sum_of_one_le _ fun i hi ↦ ?_
  obtain ⟨x, hx, rfl⟩ := mem_map.mp hi
  exact h x hx

/-- **Exchange.** Of two lists, one fits and the other, which is not longer, does not. Replacing the
elements of the first by those of the second one by one, there is a replacement that matters. -/
theorem exists_exchange (done l l' : List α) (hlength : l'.length ≤ l.length)
    (hfits : ((done ++ l).map w).sum ≤ capacity) (hnot : capacity < ((done ++ l').map w).sum) :
    ∃ rest : List α, ∃ a ∈ l, ∃ b ∈ l', (∀ x ∈ rest, x ∈ done ∨ x ∈ l ∨ x ∈ l') ∧
      (rest.map w).sum + w a ≤ capacity ∧ capacity < (rest.map w).sum + w b := by
  induction l' generalizing done l with
  | nil =>
    simp only [map_append, sum_append, append_nil] at hfits hnot
    omega
  | cons b l' ih =>
    cases l with
    | nil => simp at hlength
    | cons a l =>
      by_cases hb : ((done ++ b :: l).map w).sum ≤ capacity
      · -- this replacement does not matter
        have hfits' : (((done ++ [b]) ++ l).map w).sum ≤ capacity := by
          rwa [append_assoc, singleton_append]
        have hnot' : capacity < (((done ++ [b]) ++ l').map w).sum := by
          rwa [append_assoc, singleton_append]
        obtain ⟨rest, a', ha', b', hb', hrest, hle, hlt⟩ :=
          ih (done ++ [b]) l (Nat.le_of_succ_le_succ hlength) hfits' hnot'
        refine ⟨rest, a', mem_cons_of_mem _ ha', b', mem_cons_of_mem _ hb', ?_, hle, hlt⟩
        intro x hx
        have hmem := hrest x hx
        simp only [mem_append, mem_cons, not_mem_nil, or_false] at hmem ⊢
        tauto
      · refine ⟨done ++ l, a, mem_cons_self, b, mem_cons_self, ?_, ?_, ?_⟩
        · intro x hx
          rcases mem_append.mp hx with hx | hx
          · exact Or.inl hx
          · exact Or.inr (Or.inl (mem_cons_of_mem _ hx))
        all_goals
          simp only [map_append, map_cons, sum_append, sum_cons] at *
          omega

/-- Where an element fits beside nothing but not beside the whole list, there is a place in the list
up to which it does. -/
theorem exists_prefix_of_not_fits {n : ℕ} (l : List α) (hn : n ≤ capacity)
    (hnot : capacity < (l.map w).sum + n) :
    ∃ (rest : List α) (d : α) (l' : List α), l = rest ++ d :: l' ∧ (rest.map w).sum + n ≤ capacity ∧
      capacity < (rest.map w).sum + w d + n := by
  induction l using List.reverseRecOn with
  | nil =>
    simp only [map_nil, sum_nil] at hnot
    omega
  | append_singleton l d ih =>
    by_cases hl : (l.map w).sum + n ≤ capacity
    · refine ⟨l, d, [], rfl, hl, ?_⟩
      simpa using hnot
    · obtain ⟨rest, d', l', rfl, hle, hlt⟩ := ih (not_le.mp hl)
      exact ⟨rest, d', l' ++ [d], by simp, hle, hlt⟩

/-- **Two ways to fill up.** If the lengths do not decide, there is a list with room for `b`, and
also for `d` and `a` together, but not for `b` and `d` together. -/
theorem exists_of_not_fitsByLength (hpos : ∀ x ∈ E, 0 < w x) (hle : ∀ x ∈ E, w x ≤ capacity)
    (hnot : ¬∃ K, FitsByLength w E capacity K) :
    ∃ rest : List α, ∃ a ∈ E, ∃ b ∈ E, ∃ d ∈ E, (∀ x ∈ rest, x ∈ E) ∧
      (rest.map w).sum + w b ≤ capacity ∧ capacity < (rest.map w).sum + w d + w b ∧
      (rest.map w).sum + w d + w a ≤ capacity := by
  classical
  -- the greatest length of a list that fits
  let Fits (n : ℕ) : Prop :=
    ∃ l : List α, (∀ x ∈ l, x ∈ E) ∧ (l.map w).sum ≤ capacity ∧ l.length = n
  have hbound : ∀ l : List α, (∀ x ∈ l, x ∈ E) → (l.map w).sum ≤ capacity → l.length ≤ capacity :=
    fun l hl hsum ↦ le_trans (length_le_sum_map fun x hx ↦ hpos x (hl x hx)) hsum
  have hzero : Fits 0 := ⟨[], by simp, by simp, rfl⟩
  obtain ⟨longest, hlongest, hfits, hlength⟩ : Fits (Nat.findGreatest Fits capacity) :=
    Nat.findGreatest_spec (Nat.zero_le _) hzero
  -- some list that is not longer does not fit
  obtain ⟨l', hl', hshort, hheavy⟩ : ∃ l' : List α, (∀ x ∈ l', x ∈ E) ∧
      l'.length ≤ longest.length ∧ capacity < (l'.map w).sum := by
    by_contra hnone
    refine hnot ⟨longest.length, fun l hl ↦ ⟨fun hsum ↦ ?_, fun hlen ↦ ?_⟩⟩
    · rw [hlength]
      exact Nat.le_findGreatest (hbound l hl hsum) ⟨l, hl, hsum, rfl⟩
    · exact not_lt.mp fun hlt ↦ hnone ⟨l, hl, hlen, hlt⟩
  obtain ⟨whole, a, ha, b, hb, hwhole, hwithA, hwithB⟩ :=
    exists_exchange [] longest l' hshort hfits hheavy
  have hwholeE : ∀ x ∈ whole, x ∈ E := by
    intro x hx
    rcases hwhole x hx with hx | hx | hx
    · cases hx
    · exact hlongest x hx
    · exact hl' x hx
  obtain ⟨rest, d, tail, rfl, hrest, hfull⟩ :=
    exists_prefix_of_not_fits whole (hle b (hl' b hb)) hwithB
  refine ⟨rest, a, hlongest a ha, b, hl' b hb, d, hwholeE d (by simp), fun x hx ↦ ?_, hrest, hfull,
    ?_⟩
  · exact hwholeE x (mem_append_left _ hx)
  · simp only [map_append, map_cons, sum_append, sum_cons] at hwithA
    omega

/-- A list can be filled up with copies of an element until there is room for exactly one more. -/
theorem exists_filled_up {a : α} (ha : 0 < w a) (l : List α)
    (hroom : (l.map w).sum + w a ≤ capacity) :
    ∃ l' : List α, (∀ x ∈ l', x ∈ l ∨ x = a) ∧ (l.map w).sum ≤ (l'.map w).sum ∧
      (l'.map w).sum + w a ≤ capacity ∧ capacity < (l'.map w).sum + w a + w a := by
  -- the room that is left decreases
  induction hn : capacity - (l.map w).sum using Nat.strong_induction_on generalizing l with
  | _ n ih =>
    by_cases hmore : (l.map w).sum + w a + w a ≤ capacity
    · have hcons : ((a :: l).map w).sum = w a + (l.map w).sum := by simp
      obtain ⟨l', hmem, hle, hfits, hlast⟩ :=
        ih (capacity - ((a :: l).map w).sum) (by omega) (a :: l) (by omega) rfl
      refine ⟨l', fun x hx ↦ ?_, by omega, hfits, hlast⟩
      rcases hmem x hx with hx | hx
      · exact (mem_cons.mp hx).symm
      · exact Or.inr hx
    · exact ⟨l, fun x hx ↦ Or.inl hx, le_rfl, hroom, not_le.mp hmore⟩

end Packing
