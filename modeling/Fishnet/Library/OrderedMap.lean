import Mathlib.Tactic
import Mathlib.Data.List.Lex

/-!
# Ordered maps

`std::map<K, V>` keeps its bindings in the order of their keys, one binding for a key. Here it is
the list of the bindings, and `KeysSorted` says that the keys are strictly increasing.

`emplace` is the insertion that keeps an existing binding. Emplacing bindings one after the other
into an empty map gives back a list whose keys are sorted. For any list the result has the first
binding of each key (`ofList_eq_firstBindings`).
-/

namespace OrderedMap

open List

variable {K V W : Type} [LinearOrder K] {l m : List (K × V)}

/-- The bindings of a map are in the order of their keys, without repetition. -/
def KeysSorted (m : List (K × V)) : Prop := m.Pairwise fun x y ↦ x.1 < y.1

instance (m : List (K × V)) : Decidable (KeysSorted m) :=
  inferInstanceAs (Decidable (m.Pairwise fun x y ↦ x.1 < y.1))

/-- `emplace(key, value)`: a binding for `key` that is there stays. -/
def emplace (key : K) (value : V) : List (K × V) → List (K × V)
  | [] => [(key, value)]
  | x :: m =>
    if key < x.1 then (key, value) :: x :: m
    else if key = x.1 then x :: m
    else x :: emplace key value m

/-- Emplace the bindings of a list, in order, into an empty map. -/
def ofList (l : List (K × V)) : List (K × V) := l.foldl (fun m x ↦ emplace x.1 x.2 m) []

theorem mem_of_mem_emplace {key : K} {value : V} {x : K × V}
    (h : x ∈ emplace key value m) : x = (key, value) ∨ x ∈ m := by
  induction m with
  | nil => exact Or.inl (mem_singleton.mp h)
  | cons y m ih =>
    rw [emplace] at h
    split_ifs at h
    · exact mem_cons.mp h
    · exact Or.inr h
    · rcases mem_cons.mp h with h | h
      · exact Or.inr (h ▸ mem_cons_self)
      · exact (ih h).imp_right (mem_cons_of_mem y)

theorem mem_keys_emplace {key k : K} {value : V} :
    k ∈ (emplace key value m).map Prod.fst ↔ k = key ∨ k ∈ m.map Prod.fst := by
  induction m with
  | nil => simp [emplace]
  | cons x m ih =>
    rw [emplace]
    split_ifs with hlt heq
    · simp
    · subst heq
      simp
    · rw [map_cons, mem_cons, ih, map_cons, mem_cons]
      tauto

theorem mem_keys_foldl {l m : List (K × V)} {k : K} :
    k ∈ (l.foldl (fun m x ↦ emplace x.1 x.2 m) m).map Prod.fst ↔
      k ∈ m.map Prod.fst ∨ k ∈ l.map Prod.fst := by
  induction l generalizing m with
  | nil => simp
  | cons x l ih =>
    rw [foldl_cons, ih, mem_keys_emplace, map_cons, mem_cons]
    tauto

theorem mem_keys_ofList {k : K} : k ∈ (ofList l).map Prod.fst ↔ k ∈ l.map Prod.fst := by
  rw [ofList, mem_keys_foldl, map_nil, or_iff_right not_mem_nil]

/-- A key larger than all others goes to the end. -/
theorem emplace_of_forall_lt {key : K} {value : V}
    (h : ∀ x ∈ m, x.1 < key) : emplace key value m = m ++ [(key, value)] := by
  induction m with
  | nil => rfl
  | cons x m ih =>
    have hx : x.1 < key := h x mem_cons_self
    rw [emplace, if_neg hx.not_gt, if_neg hx.ne', ih fun y hy ↦ h y (mem_cons_of_mem _ hy)]
    rfl

/-- Bindings that come in the order of their keys are kept as they come. -/
theorem ofList_eq_self (h : KeysSorted l) : ofList l = l := by
  have haux : ∀ l m : List (K × V), KeysSorted (m ++ l) →
      l.foldl (fun m x ↦ emplace x.1 x.2 m) m = m ++ l := by
    intro l
    induction l with
    | nil => exact fun m _ ↦ (append_nil m).symm
    | cons x l ih =>
      intro m hm
      have hlast : ∀ y ∈ m, y.1 < x.1 := fun y hy ↦
        (pairwise_append.mp hm).2.2 y hy x mem_cons_self
      rw [foldl_cons, emplace_of_forall_lt hlast, ih _ (by rwa [append_assoc]),
        append_assoc]
      rfl
  exact haux l [] h

theorem KeysSorted.map_snd (h : KeysSorted l) (f : K × V → W) :
    KeysSorted (l.map fun x ↦ (x.1, f x)) :=
  pairwise_map.mpr h

/-- Keys renamed and values changed: the map that is built is the old one exactly if nothing
changed. The renaming must have no effect the second time. Otherwise the keys could change places.
-/
theorem ofList_map_eq_self_iff (h : KeysSorted l) {f : K → K} {g : V → V}
    (hf : ∀ x ∈ l, f (f x.1) = f x.1) :
    ofList (l.map fun x ↦ (f x.1, g x.2)) = l ↔ ∀ x ∈ l, f x.1 = x.1 ∧ g x.2 = x.2 := by
  constructor
  · intro hself
    have hkey : ∀ x ∈ l, f x.1 = x.1 := by
      intro x hx
      have hmem : x.1 ∈ (ofList (l.map fun x ↦ (f x.1, g x.2))).map Prod.fst := by
        rw [hself]
        exact mem_map_of_mem hx
      rw [mem_keys_ofList, map_map] at hmem
      obtain ⟨y, hy, hxy⟩ := mem_map.mp hmem
      change f y.1 = x.1 at hxy
      rw [← hxy, hf y hy]
    have hmap : (l.map fun x ↦ (f x.1, g x.2)) = l.map fun x ↦ (x.1, g x.2) :=
      map_congr_left fun x hx ↦ by rw [hkey x hx]
    rw [hmap, ofList_eq_self (h.map_snd fun x ↦ g x.2)] at hself
    intro x hx
    have hx' := map_inj_left.mp (hself.trans (map_id l).symm) x hx
    exact ⟨hkey x hx, congrArg Prod.snd hx'⟩
  · intro hall
    have hmap : (l.map fun x ↦ (f x.1, g x.2)) = l.map id :=
      map_congr_left fun x hx ↦ by rw [(hall x hx).1, (hall x hx).2, id]
    rw [hmap, map_id, ofList_eq_self h]

/-! ## First bindings -/

/-- The first binding of each key, in the order of the list. -/
def keepFirst : List (K × V) → List (K × V)
  | [] => []
  | x :: l => x :: (keepFirst l).filter fun y ↦ decide (y.1 ≠ x.1)

/-- The first binding of each key, in the order of the keys. -/
def firstBindings (l : List (K × V)) : List (K × V) :=
  (keepFirst l).insertionSort fun x y ↦ x.1 ≤ y.1

theorem keepFirst_pairwise (l : List (K × V)) : (keepFirst l).Pairwise fun x y ↦ x.1 ≠ y.1 := by
  induction l with
  | nil => exact List.Pairwise.nil
  | cons x l ih =>
    refine pairwise_cons.mpr ⟨fun y hy ↦ ?_, ih.filter _⟩
    exact (of_decide_eq_true (mem_filter.mp hy).2).symm

theorem KeysSorted.emplace (h : KeysSorted m) (key : K) (value : V) :
    KeysSorted (emplace key value m) := by
  induction m with
  | nil => exact pairwise_singleton _ _
  | cons x m ih =>
    obtain ⟨hx, hm⟩ := pairwise_cons.mp h
    rw [OrderedMap.emplace]
    split_ifs with hlt heq
    · refine pairwise_cons.mpr ⟨fun y hy ↦ ?_, h⟩
      rcases mem_cons.mp hy with rfl | hy
      · exact hlt
      · exact hlt.trans (hx y hy)
    · exact h
    · refine pairwise_cons.mpr ⟨fun y hy ↦ ?_, ih hm⟩
      have hkey := mem_keys_emplace.mp (mem_map_of_mem (f := Prod.fst) hy)
      rcases hkey with hkey | hkey
      · rw [hkey]
        exact lt_of_le_of_ne (not_lt.mp hlt) (Ne.symm heq)
      · obtain ⟨z, hz, hzy⟩ := mem_map.mp hkey
        rw [← hzy]
        exact hx z hz

theorem emplace_of_mem (h : KeysSorted m) {key : K} (hkey : key ∈ m.map Prod.fst)
    (value : V) : emplace key value m = m := by
  induction m with
  | nil => cases hkey
  | cons x m ih =>
    obtain ⟨hx, hm⟩ := pairwise_cons.mp h
    rcases mem_cons.mp hkey with rfl | hkey
    · rw [emplace, if_neg (lt_irrefl _), if_pos rfl]
    · obtain ⟨y, hy, rfl⟩ := mem_map.mp hkey
      have hlt : x.1 < y.1 := hx y hy
      rw [emplace, if_neg hlt.not_gt, if_neg hlt.ne', ih hm hkey]

theorem emplace_perm {key : K} (hkey : key ∉ m.map Prod.fst) (value : V) :
    (emplace key value m).Perm ((key, value) :: m) := by
  induction m with
  | nil => exact List.Perm.refl _
  | cons x m ih =>
    rw [map_cons, mem_cons, not_or] at hkey
    rw [emplace]
    split_ifs with hlt
    · exact List.Perm.refl _
    · exact absurd ‹key = x.1› hkey.1
    · exact ((ih hkey.2).cons x).trans (List.Perm.swap ..)

/-- Emplacing bindings adds the first one of each new key. -/
theorem foldl_emplace_perm (l : List (K × V)) (h : KeysSorted m) :
    (l.foldl (fun m x ↦ emplace x.1 x.2 m) m).Perm
      (m ++ (keepFirst l).filter fun y ↦ decide (y.1 ∉ m.map Prod.fst)) := by
  induction l generalizing m with
  | nil =>
    rw [keepFirst, filter_nil, append_nil]
    exact List.Perm.refl _
  | cons x l ih =>
    rw [foldl_cons, keepFirst, filter_cons]
    by_cases hx : x.1 ∈ m.map Prod.fst
    · -- the key is there: later bindings of it are dropped with this one
      rw [if_neg (by simpa using hx), filter_filter, emplace_of_mem h hx]
      refine (ih h).trans (List.Perm.of_eq (congrArg (m ++ ·) (filter_congr fun y _ ↦ ?_)))
      have himp : y.1 ∉ m.map Prod.fst → y.1 ≠ x.1 := fun hy heq ↦ hy (heq ▸ hx)
      rw [Bool.eq_iff_iff, Bool.and_eq_true, decide_eq_true_iff, decide_eq_true_iff]
      exact ⟨fun hy ↦ ⟨hy, himp hy⟩, fun hy ↦ hy.1⟩
    · rw [if_pos (by simpa using hx), filter_filter]
      refine (ih (h.emplace x.1 x.2)).trans (((emplace_perm hx x.2).append_right _).trans ?_)
      refine perm_middle.symm.trans (List.Perm.of_eq ?_)
      congr 2
      refine filter_congr fun y _ ↦ ?_
      rw [Bool.eq_iff_iff, Bool.and_eq_true, decide_eq_true_iff, decide_eq_true_iff,
        decide_eq_true_iff, mem_keys_emplace, not_or, and_comm]

theorem keysSorted_ofList (l : List (K × V)) : KeysSorted (ofList l) := by
  have haux : ∀ l m : List (K × V), KeysSorted m →
      KeysSorted (l.foldl (fun m x ↦ emplace x.1 x.2 m) m) := by
    intro l
    induction l with
    | nil => exact fun _ hm ↦ hm
    | cons x l ih => exact fun m hm ↦ ih _ (hm.emplace x.1 x.2)
  exact haux l [] List.Pairwise.nil

theorem keysSorted_firstBindings (l : List (K × V)) : KeysSorted (firstBindings l) := by
  have hperm : (firstBindings l).Perm (keepFirst l) := perm_insertionSort _ _
  have hne : (firstBindings l).Pairwise fun x y ↦ x.1 ≠ y.1 :=
    hperm.symm.pairwise (keepFirst_pairwise l) fun h ↦ h.symm
  have hle : (firstBindings l).Pairwise fun x y ↦ x.1 ≤ y.1 := pairwise_insertionSort _ _
  exact (hle.and hne).imp fun h ↦ lt_of_le_of_ne h.1 h.2

/-- **First bindings.** The map that is built by emplacing has the first binding of each key. -/
theorem ofList_eq_firstBindings (l : List (K × V)) : ofList l = firstBindings l := by
  have hperm : (ofList l).Perm (firstBindings l) := by
    have hfold := foldl_emplace_perm l (m := []) List.Pairwise.nil
    rw [nil_append, map_nil] at hfold
    have hall : ((keepFirst l).filter fun y ↦ decide (y.1 ∉ ([] : List K))) = keepFirst l :=
      filter_eq_self.mpr fun y _ ↦ decide_eq_true not_mem_nil
    rw [hall] at hfold
    exact hfold.trans (perm_insertionSort _ _).symm
  refine hperm.eq_of_pairwise (fun x y _ _ hxy hyx ↦ ?_) (keysSorted_ofList l)
    (keysSorted_firstBindings l)
  exact absurd hxy hyx.not_gt

end OrderedMap
