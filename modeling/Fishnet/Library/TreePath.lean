import Mathlib.Tactic

/-!
# Addresses in trees

A tree whose nodes have children under selectors. A *path* is a list of selectors, read from the
root. `descend` follows a path, and `modifyAt` changes the node at its end.

What a change at `p` does to the node at `q` depends on how the paths lie. If `q` is a beginning of
`p`, the node at `q` is changed further down, `descend_modifyAt_append`. If `p` is a beginning of
`q`, the node is the one that the changed node has there now, `descend_append_modifyAt`. Otherwise
it stays, `descend_modifyAt_of_incomparable`.
-/

open List

/-- Trees `C` whose nodes have children under selectors `S`. -/
class Branching (S : outParam Type) (C : Type) where
  child : C → S → Option C
  modifyChild : (C → C) → S → C → C
  child_modifyChild_self : ∀ f a c, child (modifyChild f a c) a = (child c a).map f
  child_modifyChild_of_ne : ∀ f {a b} c, a ≠ b → child (modifyChild f a c) b = child c b
  modifyChild_modifyChild : ∀ f g a c, modifyChild f a (modifyChild g a c) = modifyChild (f ∘ g) a c

namespace Branching

variable {S C : Type} [Branching S C]

/-- The node at the end of a path. -/
def descend : List S → C → Option C
  | [], c => some c
  | a :: p, c => (child c a).bind (descend p)

/-- The tree after a change of the node at the end of a path. -/
def modifyAt (f : C → C) : List S → C → C
  | [] => f
  | a :: p => modifyChild (modifyAt f p) a

theorem modifyAt_modifyAt (f g : C → C) (p : List S) :
    modifyAt f p ∘ modifyAt g p = modifyAt (f ∘ g) p := by
  induction p with
  | nil => rfl
  | cons a p ih =>
    funext c
    rw [Function.comp_apply, modifyAt, modifyAt, modifyChild_modifyChild, ih, modifyAt]

theorem descend_append (p q : List S) (c : C) :
    descend (p ++ q) c = (descend p c).bind (descend q) := by
  induction p generalizing c with
  | nil => rfl
  | cons a p ih =>
    rw [cons_append, descend, descend, Option.bind_assoc]
    congr 1
    funext d
    exact ih d

theorem descend_modifyAt_append (f : C → C) (q r : List S) (c : C) :
    descend q (modifyAt f (q ++ r) c) = (descend q c).map (modifyAt f r) := by
  induction q generalizing c with
  | nil => rfl
  | cons a q ih =>
    rw [cons_append, modifyAt, descend, child_modifyChild_self, descend]
    cases child c a with
    | none => rfl
    | some d => exact ih d

theorem descend_modifyAt_self (f : C → C) (p : List S) (c : C) :
    descend p (modifyAt f p c) = (descend p c).map f := by
  have h := descend_modifyAt_append f p [] c
  rwa [append_nil] at h

theorem descend_append_modifyAt (f : C → C) (p r : List S) (c : C) :
    descend (p ++ r) (modifyAt f p c) = ((descend p c).map f).bind (descend r) := by
  rw [descend_append, descend_modifyAt_self]

theorem descend_modifyAt_of_incomparable (f : C → C) {p q : List S} (hpq : ¬p <+: q)
    (hqp : ¬q <+: p) (c : C) : descend q (modifyAt f p c) = descend q c := by
  induction p generalizing q c with
  | nil => exact absurd nil_prefix hpq
  | cons a p ih =>
    cases q with
    | nil => exact absurd nil_prefix hqp
    | cons b q =>
      rw [modifyAt, descend, descend]
      by_cases hab : a = b
      · subst hab
        rw [prefix_cons_inj] at hpq hqp
        rw [child_modifyChild_self]
        cases child c a with
        | none => rfl
        | some d => exact ih hpq hqp d
      · rw [child_modifyChild_of_ne _ _ hab]

end Branching
