import Mathlib.Tactic

/-!
# Computations that can trip an assertion

A C++ function whose body contains `assert` either runs through or stops the process. The shallow
embedding used throughout is `Except Fault`: a tripped assertion, a container that refuses to grow,
an access outside an object and a signed overflow are different faults, because the results below
promise different things about each of them.

A proof takes such a computation apart in one of two ways. Either it inverts: a `bind` succeeded
exactly when both of its halves did. Or it reasons forwards with `Yields`, which says that no
assertion fails and that whatever is returned satisfies a postcondition.
-/

/-- What stops a checked computation. -/
inductive Fault where
  /-- An `assert` whose condition was false. -/
  | assertion
  /-- A container asked to grow beyond its `max_size()`. -/
  | lengthError
  /-- A dereference outside the object pointed into. -/
  | badAccess
  /-- A result that a signed integer type cannot hold. -/
  | overflow
  deriving DecidableEq, Repr

/-- A checked computation. -/
abbrev Checked := Except Fault

/-- A `std::string`, or the memory that a `const char*` points into. -/
abbrev Bytes := List UInt8

/-- `assert(p)`. -/
def assert (p : Prop) [Decidable p] : Checked Unit :=
  if p then .ok () else .error .assertion

section Assertions

variable {α : Type} {p : Prop} [Decidable p]

theorem assert_of (h : p) : assert p = .ok () := if_pos h

theorem assert_of_not (h : ¬p) : assert p = .error .assertion := if_neg h

/-- An assertion that holds is transparent to what follows it. -/
theorem assert_bind_of (h : p) (f : Unit → Checked α) : (assert p >>= f) = f () := by
  rw [assert_of h]
  rfl

theorem assert_bind_of_not (h : ¬p) (f : Unit → Checked α) :
    (assert p >>= f) = .error .assertion := by
  rw [assert_of_not h]
  rfl

theorem assert_bind_eq_ok {f : Unit → Checked α} {a : α} :
    (assert p >>= f) = .ok a ↔ p ∧ f () = .ok a := by
  by_cases h : p
  · rw [assert_bind_of h, and_iff_right h]
  · rw [assert_bind_of_not h]
    constructor
    · intro he
      cases he
    · intro he
      exact absurd he.1 h

end Assertions

section Binds

variable {α β ε : Type}

/-- A sequence succeeds exactly when its first half does and the second does on its result. -/
theorem bind_eq_ok {x : Except ε α} {f : α → Except ε β} {b : β} :
    (x >>= f) = .ok b ↔ ∃ a, x = .ok a ∧ f a = .ok b := by
  cases x with
  | error e =>
    constructor
    · intro h
      cases h
    · rintro ⟨a, ha, -⟩
      cases ha
  | ok a =>
    constructor
    · intro h
      exact ⟨a, rfl, h⟩
    · rintro ⟨a', ha, h⟩
      cases ha
      exact h

theorem bind_of_ok {x : Except ε α} {a : α} (h : x = .ok a) (f : α → Except ε β) :
    (x >>= f) = f a := by
  rw [h]
  rfl

theorem map_eq_ok {x : Except ε α} {f : α → β} {b : β} :
    x.map f = .ok b ↔ ∃ a, x = .ok a ∧ f a = b := by
  cases x with
  | error e =>
    constructor
    · intro h
      cases h
    · rintro ⟨a, ha, -⟩
      cases ha
  | ok a =>
    constructor
    · intro h
      exact ⟨a, rfl, Except.ok.inj h⟩
    · rintro ⟨a', ha', rfl⟩
      cases ha'
      rfl

/-- What is observed of the result of a computation on fixed inputs can be evaluated. -/
theorem exists_ok_of_map {x : Except ε α} {P : α → Prop} (f : α → β) (b : β) (h : x.map f = .ok b)
    (hP : ∀ a, x = .ok a → f a = b → P a) : ∃ a, x = .ok a ∧ P a := by
  obtain ⟨a, ha, hb⟩ := map_eq_ok.mp h
  exact ⟨a, ha, hP a ha hb⟩

theorem except_ok_eq_comm {a b : α} : (Except.ok a : Except ε α) = .ok b ↔ b = a := by
  rw [Except.ok.injEq, eq_comm]

theorem map_eq_error {x : Except ε α} {f : α → β} {e : ε} : x.map f = .error e ↔ x = .error e := by
  cases x with
  | error e' => exact ⟨fun h ↦ congrArg Except.error (Except.error.inj h), fun h ↦ by cases h; rfl⟩
  | ok a =>
    constructor
    · intro h
      cases h
    · intro h
      cases h

theorem except_map_bind {γ : Type} (x : Except ε α) (f : α → Except ε β) (g : β → γ) :
    (x >>= f).map g = x >>= fun a ↦ (f a).map g := by
  cases x <;> rfl

theorem ok_bind (a : α) (f : α → Except ε β) : (Except.ok a >>= f) = f a := rfl

/-- A sequence fails either in its first half or, that one having succeeded, in its second. -/
theorem bind_eq_error {x : Except ε α} {f : α → Except ε β} {e : ε} :
    (x >>= f) = .error e ↔ x = .error e ∨ ∃ a, x = .ok a ∧ f a = .error e := by
  cases x with
  | error e' =>
    constructor
    · intro h
      cases h
      exact Or.inl rfl
    · rintro (h | ⟨a, ha, -⟩)
      · cases h
        rfl
      · cases ha
  | ok a =>
    constructor
    · intro h
      exact Or.inr ⟨a, rfl, h⟩
    · rintro (h | ⟨a', ha, h⟩)
      · cases h
      · cases ha
        exact h

@[simp] theorem pure_eq_ok {a b : α} : (pure a : Except ε α) = .ok b ↔ a = b := by
  constructor
  · intro h
    cases h
    rfl
  · rintro rfl
    rfl

end Binds

/-! ## Postconditions -/

/-- No assertion fails in `r`: it returns a value satisfying `Q`, or a container refused to grow. -/
def Yields {α : Type} (r : Checked α) (Q : α → Prop) : Prop :=
  (∃ a, r = .ok a ∧ Q a) ∨ r = .error .lengthError

section Yields

variable {α β : Type} {P Q : α → Prop} {R : β → Prop}

theorem yields_ok {a : α} (h : Q a) : Yields (.ok a) Q := Or.inl ⟨a, rfl, h⟩

theorem yields_pure {a : α} (h : Q a) : Yields (pure a) Q := Or.inl ⟨a, rfl, h⟩

theorem Yields.imp {r : Checked α} (h : Yields r P) (hPQ : ∀ a, P a → Q a) : Yields r Q := by
  rcases h with ⟨a, ha, hP⟩ | herr
  · exact Or.inl ⟨a, ha, hPQ a hP⟩
  · exact Or.inr herr

theorem Yields.imp_ok {r : Checked α} (h : Yields r P) (hPQ : ∀ a, r = .ok a → P a → Q a) :
    Yields r Q := by
  rcases h with ⟨a, ha, hP⟩ | herr
  · exact Or.inl ⟨a, ha, hPQ a ha hP⟩
  · exact Or.inr herr

theorem Yields.bind {x : Checked α} {f : α → Checked β} (hx : Yields x P)
    (hf : ∀ a, P a → Yields (f a) R) : Yields (x >>= f) R := by
  rcases hx with ⟨a, rfl, hP⟩ | rfl
  · exact hf a hP
  · exact Or.inr rfl

theorem yields_assert_bind {p : Prop} [Decidable p] (h : p) {f : Unit → Checked α}
    (hf : Yields (f ()) Q) : Yields (assert p >>= f) Q := by
  rwa [assert_bind_of h]

theorem Yields.of_eq_ok {r : Checked α} {a : α} (h : Yields r Q) (hr : r = .ok a) : Q a := by
  rcases h with ⟨b, hb, hQ⟩ | herr
  · rw [hr] at hb
    cases hb
    exact hQ
  · rw [hr] at herr
    cases herr

theorem Yields.ne_assertion {r : Checked α} (h : Yields r Q) : r ≠ .error .assertion := by
  rcases h with ⟨a, rfl, -⟩ | rfl
  · exact fun h ↦ by cases h
  · exact fun h ↦ by cases h

theorem Yields.and {r : Checked α} (hP : Yields r P) (hQ : Yields r Q) :
    Yields r fun a ↦ P a ∧ Q a := by
  rcases hP with ⟨a, rfl, ha⟩ | rfl
  · exact Or.inl ⟨a, rfl, ha, hQ.of_eq_ok rfl⟩
  · exact Or.inr rfl

end Yields
