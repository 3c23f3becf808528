import Fishnet.Library.Checked

/-!
# Computations that throw

A C++ function can end in three ways. It returns, it throws an exception, or it does something that
has no meaning. What it has done to an object before throwing is still done when the exception is
caught, so the state is part of the result in both of the first two cases.

Two kinds of facts are proved about such a computation. `Completes` says that it returns, and is
inverted at every `bind`; `Keeps` is an invariant that holds however it ends.
-/

variable {ε σ α β : Type}

/-- A computation with a state `σ` that can throw an `ε`. -/
structure Throwing (ε σ α : Type) where
  run : σ → Checked (Except ε α × σ)

namespace Throwing

instance : Monad (Throwing ε σ) where
  pure a := ⟨fun s ↦ .ok (.ok a, s)⟩
  bind m f := ⟨fun s ↦
    match m.run s with
    | .ok (.ok a, s') => (f a).run s'
    | .ok (.error e, s') => .ok (.error e, s')
    | .error fault => .error fault⟩

/-- `throw e`. -/
def raise (e : ε) : Throwing ε σ α := ⟨fun s ↦ .ok (.error e, s)⟩

/-- `if (!p) throw e;`. -/
def require (p : Prop) [Decidable p] (e : ε) : Throwing ε σ Unit := if p then pure () else raise e

def fault (f : Fault) : Throwing ε σ α := ⟨fun _ ↦ .error f⟩

def get : Throwing ε σ σ := ⟨fun s ↦ .ok (.ok s, s)⟩

def modify (f : σ → σ) : Throwing ε σ Unit := ⟨fun s ↦ .ok (.ok (), f s)⟩

/-- The results of `n` executions. -/
def times (m : Throwing ε σ α) : ℕ → Throwing ε σ (List α)
  | 0 => pure []
  | n + 1 => do
    let a ← m
    let as ← times m n
    return a :: as

theorem run_get_bind (f : σ → Throwing ε σ β) (s : σ) : (get >>= f).run s = (f s).run s := rfl

/-! ## Completion -/

/-- The computation returns `a`. -/
def Completes (m : Throwing ε σ α) (s : σ) (a : α) (s' : σ) : Prop := m.run s = .ok (.ok a, s')

section

variable {m : Throwing ε σ α} {f : α → Throwing ε σ β} {s s' s'' : σ} {a : α} {b : β} {e : ε}

theorem completes_pure {a' : α} :
    Completes (pure a : Throwing ε σ α) s a' s' ↔ a = a' ∧ s = s' := by
  simp [Completes, pure]

theorem completes_bind : Completes (m >>= f) s b s'' ↔
    ∃ a s', Completes m s a s' ∧ Completes (f a) s' b s'' := by
  simp only [Completes, bind]
  constructor
  · intro h
    split at h
    · next a s' hm => exact ⟨a, s', hm, h⟩
    · cases h
    · cases h
  · rintro ⟨a, s', hm, h⟩
    rw [hm]
    exact h

/-- A statement that completes under a condition, with a known state. -/
theorem completes_bind_unit {m : Throwing ε σ Unit} {g : Unit → Throwing ε σ β} {p : Prop} {t : σ}
    (h : ∀ u s', Completes m s u s' ↔ p ∧ t = s') :
    Completes (m >>= g) s b s'' ↔ p ∧ Completes (g ()) t b s'' := by
  rw [completes_bind]
  constructor
  · rintro ⟨u, s', hm, hg⟩
    obtain ⟨hp, rfl⟩ := (h u s').1 hm
    exact ⟨hp, hg⟩
  · rintro ⟨hp, hg⟩
    exact ⟨(), t, (h () t).2 ⟨hp, rfl⟩, hg⟩

theorem completes_get {t : σ} : Completes (get : Throwing ε σ σ) s t s' ↔ s = t ∧ s = s' := by
  simp [Completes, get]

theorem completes_modify {g : σ → σ} {u : Unit} :
    Completes (modify g : Throwing ε σ Unit) s u s' ↔ g s = s' := by
  simp [Completes, modify]

theorem not_completes_raise : ¬Completes (raise e : Throwing ε σ α) s a s' := by
  simp [Completes, raise]

theorem completes_require {p : Prop} [Decidable p] {u : Unit} :
    Completes (require p e : Throwing ε σ Unit) s u s' ↔ p ∧ s = s' := by
  unfold require
  split_ifs with hp
  · simp [completes_pure, hp]
  · simp [not_completes_raise, hp]

theorem not_completes_fault {x : Fault} : ¬Completes (fault x : Throwing ε σ α) s a s' := by
  simp [Completes, fault]

end

/-! ## Invariants -/

/-- However the computation ends, `I` is kept. -/
def Keeps (I : σ → Prop) (m : Throwing ε σ α) : Prop :=
  ∀ s r s', I s → m.run s = .ok (r, s') → I s'

section

variable {I : σ → Prop} {m : Throwing ε σ α} {f : α → Throwing ε σ β}

theorem keeps_pure (a : α) : Keeps I (pure a : Throwing ε σ α) := by
  intro s r s' hs h
  cases h
  exact hs

theorem keeps_raise (e : ε) : Keeps I (raise e : Throwing ε σ α) := by
  intro s r s' hs h
  cases h
  exact hs

theorem keeps_require (p : Prop) [Decidable p] (e : ε) :
    Keeps I (require p e : Throwing ε σ Unit) := by
  unfold require
  split_ifs
  · exact keeps_pure _
  · exact keeps_raise _

theorem keeps_fault (x : Fault) : Keeps I (fault x : Throwing ε σ α) := by
  intro s r s' hs h
  cases h

theorem keeps_get : Keeps I (get : Throwing ε σ σ) := by
  intro s r s' hs h
  cases h
  exact hs

theorem keeps_modify {g : σ → σ} (hg : ∀ s, I s → I (g s)) :
    Keeps I (modify g : Throwing ε σ Unit) := by
  intro s r s' hs h
  cases h
  exact hg s hs

theorem Keeps.bind (hm : Keeps I m) (hf : ∀ a, Keeps I (f a)) : Keeps I (m >>= f) := by
  intro s r s' hs h
  simp only [Bind.bind] at h
  split at h
  · next a t hrun => exact hf a t r s' (hm s _ t hs hrun) h
  · next e t hrun =>
    cases h
    exact hm s _ _ hs hrun
  · cases h

theorem Keeps.times (hm : Keeps I m) (n : ℕ) : Keeps I (m.times n) := by
  induction n with
  | zero => exact keeps_pure _
  | succ n ih => exact hm.bind fun a ↦ ih.bind fun as ↦ keeps_pure _

end

end Throwing
