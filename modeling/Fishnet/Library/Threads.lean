import Mathlib.Algebra.BigOperators.Group.Finset.Basic
import Mathlib.Algebra.Order.Group.Multiset
import Mathlib.Tactic

/-!
# Threads that wait and threads that hold

## Condition variables

A thread that waits on a condition variable is blocked until it is notified. It then takes the mutex
again and tests its condition once more. So for a blocked thread there are two possibilities: no
notification has reached it yet, or one is pending. They are the two sets of a `CondVar`.

A wait may also end for no reason. What a thread does after a wait is therefore possible whether it
is notified or not, and in a model the sets only record who depends on a further notification. That
is what lost wake-ups are about.

`notifyOne` chooses among the threads that are blocked without a notification. The choice is an
argument, `none` if there is nobody to choose (`CanNotify`).

## What is held

Each of finitely many threads is at some place, and at some places a thread holds things that it has
taken out of a shared structure. `heldBy` collects them. When one thread moves, only what that
thread holds changes (`heldBy_update`).
-/

open Function Finset

/-- A condition variable with the threads blocked on it. -/
structure CondVar (ι : Type) where
  /-- Blocked, and not notified since. -/
  waiting : Finset ι
  /-- Notified, and not back from the wait yet. -/
  notified : Finset ι
  deriving DecidableEq

namespace CondVar

variable {ι : Type}

/-- Nobody is blocked. -/
def new : CondVar ι := ⟨∅, ∅⟩

/-- The choices that `notifyOne` has. -/
def CanNotify (c : CondVar ι) : Option ι → Prop
  | none => c.waiting = ∅
  | some t => t ∈ c.waiting

variable [DecidableEq ι] (c : CondVar ι)

instance (x : Option ι) : Decidable (c.CanNotify x) :=
  match x with
  | none => inferInstanceAs (Decidable (c.waiting = ∅))
  | some t => inferInstanceAs (Decidable (t ∈ c.waiting))

/-- A thread holds the mutex, whether it comes back from a wait or was never in one. -/
def leave (t : ι) : CondVar ι := ⟨c.waiting.erase t, c.notified.erase t⟩

/-- A thread blocks. -/
def wait (t : ι) : CondVar ι := ⟨insert t c.waiting, c.notified.erase t⟩

/-- The thread chosen is notified. -/
def notifyOne : Option ι → CondVar ι
  | none => c
  | some t => ⟨c.waiting.erase t, insert t c.notified⟩

/-- All threads are notified. -/
def notifyAll : CondVar ι := ⟨∅, c.notified ∪ c.waiting⟩

variable {c} {t u : ι} {x : Option ι}

@[simp] theorem mem_waiting_leave : u ∈ (c.leave t).waiting ↔ u ≠ t ∧ u ∈ c.waiting :=
  mem_erase

@[simp] theorem mem_waiting_wait : u ∈ (c.wait t).waiting ↔ u = t ∨ u ∈ c.waiting :=
  mem_insert

theorem waiting_leave_subset : (c.leave t).waiting ⊆ c.waiting := Finset.erase_subset _ _

theorem waiting_notifyOne_subset : (c.notifyOne x).waiting ⊆ c.waiting := by
  cases x with
  | none => exact Finset.Subset.refl _
  | some t => exact erase_subset _ _

omit [DecidableEq ι] in
theorem exists_canNotify (c : CondVar ι) : ∃ x, c.CanNotify x := by
  rcases c.waiting.eq_empty_or_nonempty with hempty | ⟨t, ht⟩
  · exact ⟨none, hempty⟩
  · exact ⟨some t, ht⟩

/-- Once `notifyOne` has been called, not everybody waits without a notification. -/
theorem exists_notMem_waiting_notifyOne [Nonempty ι] (h : c.CanNotify x) :
    ∃ t, t ∉ (c.notifyOne x).waiting := by
  cases x with
  | none =>
    obtain ⟨t⟩ := ‹Nonempty ι›
    refine ⟨t, ?_⟩
    have hempty : c.waiting = ∅ := h
    rw [notifyOne, hempty]
    exact notMem_empty t
  | some t => exact ⟨t, notMem_erase t _⟩

end CondVar

/-! ## What is held -/

section Held

variable {ι α τ : Type} {threads : Finset ι} {place : ι → α} {holds : α → Multiset τ}

/-- What the threads hold together, if a thread at the place `p` holds `holds p`. -/
def heldBy (threads : Finset ι) (place : ι → α) (holds : α → Multiset τ) : Multiset τ :=
  ∑ t ∈ threads, holds (place t)

theorem heldBy_eq_zero (h : ∀ t ∈ threads, holds (place t) = 0) :
    heldBy threads place holds = 0 := sum_eq_zero h

variable [DecidableEq ι] {t : ι} {p : α}

theorem heldBy_update (ht : t ∈ threads) :
    heldBy threads (update place t p) holds + holds (place t) =
      heldBy threads place holds + holds p := by
  have hrest : ∑ u ∈ threads.erase t, holds (update place t p u) =
      ∑ u ∈ threads.erase t, holds (place u) := by
    refine sum_congr rfl fun u hu ↦ ?_
    rw [update_of_ne (ne_of_mem_erase hu)]
  rw [heldBy, heldBy, ← add_sum_erase _ _ ht, ← add_sum_erase _ _ ht, hrest,
    update_self]
  ac_rfl

/-- One thread moves between places where it holds the same. -/
theorem heldBy_update_of_eq (ht : t ∈ threads) (h : holds p = holds (place t)) :
    heldBy threads (update place t p) holds = heldBy threads place holds := by
  have hupdate : heldBy threads (update place t p) holds + holds (place t) =
      heldBy threads place holds + holds p := heldBy_update ht
  rw [h] at hupdate
  exact add_right_cancel hupdate

end Held
