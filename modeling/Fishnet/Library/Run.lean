import Fishnet.Library.Checked

/-!
# Runs of a checked step function

A system is given by `step : σ → α → Except ε σ`: the state before, the input, and the state after
or the reason there is none. A *run* feeds a list of inputs, and stops at the first fault.

The rules turn facts about one step into facts about runs. `runAll_induct` says that what one step
preserves, a run preserves. `runAll_simulates` adds that a run goes through when every step does,
and carries an abstract state along. `map_runAll` compares two systems that fail together, and
`runAll_family` takes a run of many systems apart.
`runAll_ne_error` and `yields_runAll` bound the ways a run can stop short, and `along_of_runAll_ne`
shows that a condition on steps is not stronger than needed. So does `along_iff_of_runAll`, for a
property of the states.

`Along` is how a condition on steps becomes a condition on runs: it is required of each input in the
state that input is fed to, and of nothing after a fault.
-/

open List Function

variable {σ α ε τ : Type}

/-- Feed the inputs in order, stopping at the first fault. -/
def runAll (step : σ → α → Except ε σ) : σ → List α → Except ε σ
  | s, [] => .ok s
  | s, a :: as => step s a >>= fun s' ↦ runAll step s' as

/-- `P` holds of every input of the run in the state it is fed to. -/
def Along (step : σ → α → Except ε σ) (P : σ → α → Prop) : σ → List α → Prop
  | _, [] => True
  | s, a :: as => P s a ∧ ∀ s', step s a = .ok s' → Along step P s' as

/-- A statement about the result of a computation is decided by running it. -/
instance decidableForallOk {x : Except ε σ} {Q : σ → Prop} [∀ s, Decidable (Q s)] :
    Decidable (∀ s, x = .ok s → Q s) :=
  match x with
  | .ok s => decidable_of_iff (Q s) ⟨fun h s' hs ↦ Except.ok.inj hs ▸ h, fun h ↦ h s rfl⟩
  | .error _ => isTrue fun _ h ↦ by cases h

instance Along.decidable {step : σ → α → Except ε σ} {P : σ → α → Prop}
    [∀ s a, Decidable (P s a)] : ∀ s as, Decidable (Along step P s as)
  | _, [] => inferInstanceAs (Decidable True)
  | s, a :: as =>
    have (s' : σ) : Decidable (Along step P s' as) := Along.decidable s' as
    inferInstanceAs (Decidable (P s a ∧ ∀ s', step s a = .ok s' → Along step P s' as))

section Rules

variable {step : σ → α → Except ε σ} {I : σ → Prop} {P Q : σ → α → Prop} {s s' t : σ}
  {as bs : List α} {e : ε}

@[simp] theorem runAll_nil (s : σ) : runAll step s [] = .ok s := rfl

theorem runAll_cons_eq_ok {a : α} :
    runAll step s (a :: as) = .ok s' ↔ ∃ t, step s a = .ok t ∧ runAll step t as = .ok s' := by
  rw [runAll, bind_eq_ok]

theorem runAll_append (s : σ) (as bs : List α) :
    runAll step s (as ++ bs) = runAll step s as >>= fun t ↦ runAll step t bs := by
  induction as generalizing s with
  | nil => rfl
  | cons a as ih =>
    rw [cons_append, runAll, runAll]
    cases step s a with
    | error e => rfl
    | ok t => exact ih t

theorem runAll_append_eq_ok :
    runAll step s (as ++ bs) = .ok s' ↔
      ∃ t, runAll step s as = .ok t ∧ runAll step t bs = .ok s' := by
  rw [runAll_append, bind_eq_ok]

/-- A condition on inputs alone holds along every run of inputs that meet it. -/
theorem along_of_forall (h : ∀ s, ∀ a ∈ as, P s a) : Along step P s as := by
  induction as generalizing s with
  | nil => trivial
  | cons a as ih =>
    exact ⟨h s a mem_cons_self, fun s' _ ↦ ih fun s a ha ↦ h s a (mem_cons_of_mem _ ha)⟩

/-- **The invariant rule.** What every step meeting `P` preserves, every run along `P` preserves. -/
theorem runAll_induct (hstep : ∀ s a s', I s → P s a → step s a = .ok s' → I s') (hs : I s)
    (hP : Along step P s as) (hrun : runAll step s as = .ok s') : I s' := by
  induction as generalizing s with
  | nil =>
    cases hrun
    exact hs
  | cons a as ih =>
    obtain ⟨t, ht, hrest⟩ := runAll_cons_eq_ok.mp hrun
    exact ih (hstep s a t hs hP.1 ht) (hP.2 t ht) hrest

/-- The invariant rule for steps without a condition. -/
theorem runAll_invariant (hstep : ∀ s a s', I s → step s a = .ok s' → I s') (hs : I s)
    (hrun : runAll step s as = .ok s') : I s' :=
  runAll_induct (P := fun _ _ ↦ True) (fun s a s' hI _ ↦ hstep s a s' hI) hs
    (along_of_forall fun _ _ _ ↦ trivial) hrun

/-- **The simulation rule.** When each step meeting `P` goes through and moves the abstract state
along `astep`, so does a run along `P`. -/
theorem runAll_simulates {R : σ → τ → Prop} {astep : τ → α → τ}
    (hstep : ∀ s t a, R s t → P s a → ∃ s', step s a = .ok s' ∧ R s' (astep t a)) {t : τ}
    (hs : R s t) (hP : Along step P s as) :
    ∃ s', runAll step s as = .ok s' ∧ R s' (as.foldl astep t) := by
  induction as generalizing s t with
  | nil => exact ⟨s, rfl, hs⟩
  | cons a as ih =>
    obtain ⟨s', hs', hR⟩ := hstep s t a hs hP.1
    obtain ⟨s'', hrun, hR'⟩ := ih hR (hP.2 s' hs')
    exact ⟨s'', runAll_cons_eq_ok.mpr ⟨s', hs', hrun⟩, hR'⟩

/-- **The image rule.** When the image of each step from an invariant state is a step of another
system, the image of a run is a run of that system. -/
theorem map_runAll {step' : τ → α → Except ε τ} {f : σ → τ}
    (hstep : ∀ s a s', I s → step s a = .ok s' → I s')
    (hmap : ∀ s a, I s → (step s a).map f = step' (f s) a) (hs : I s) (as : List α) :
    (runAll step s as).map f = runAll step' (f s) as := by
  induction as generalizing s with
  | nil => rfl
  | cons a as ih =>
    have ha := hmap s a hs
    rw [runAll, runAll, ← ha]
    cases hstep' : step s a with
    | error e => rfl
    | ok t => exact ih (hstep s a t hs hstep')

/-- **The totality rule.** When each step meeting `P` from an invariant state goes through and keeps
the invariant, so does a run along `P`. -/
theorem runAll_total (hstep : ∀ s a, I s → P s a → ∃ s', step s a = .ok s' ∧ I s') (hs : I s)
    (hP : Along step P s as) : ∃ s', runAll step s as = .ok s' ∧ I s' := by
  let stay (_ : Unit) (_ : α) := ()
  exact @runAll_simulates _ _ _ _ _ _ _ _ (fun s _ ↦ I s) stay (fun s _ a ↦ hstep s a) () hs hP

/-- **The fault rule.** When no step meeting `P` from an invariant state stops with `e`, no run
along `P` does. -/
theorem runAll_ne_error (hstep : ∀ s a s', I s → P s a → step s a = .ok s' → I s')
    (hne : ∀ s a, I s → P s a → step s a ≠ .error e) (hs : I s) (hP : Along step P s as) :
    runAll step s as ≠ .error e := by
  induction as generalizing s with
  | nil => exact nofun
  | cons a as ih =>
    rw [runAll, Ne, bind_eq_error]
    rintro (h | ⟨t, ht, hrest⟩)
    · exact hne s a hs hP.1 h
    · exact ih (hstep s a t hs hP.1 ht) (hP.2 t ht) hrest

/-- The invariant rule for postconditions: when every step meeting `P` yields the invariant again,
so does a run along `P`. -/
theorem yields_runAll {step : σ → α → Checked σ}
    (hstep : ∀ s a, I s → P s a → Yields (step s a) I) (hs : I s)
    (hP : Along step P s as) : Yields (runAll step s as) I := by
  induction as generalizing s with
  | nil => exact yields_ok hs
  | cons a as ih =>
    rcases hstep s a hs hP.1 with ⟨t, ht, hI⟩ | herr
    · rw [runAll, bind_of_ok ht]
      exact ih hI (hP.2 t ht)
    · rw [runAll, herr]
      exact Or.inr rfl

/-- When every step on inputs from `Q` that violates `P` stops with the fault `e`, a run on such
inputs that does not stop with `e` is a run along `P`. -/
theorem along_of_runAll_ne {Q : α → Prop}
    (hstep : ∀ s a s', Q a → I s → P s a → step s a = .ok s' → I s')
    (hviolate : ∀ s a, Q a → I s → ¬P s a → step s a = .error e)
    (has : ∀ a ∈ as, Q a) (hs : I s) (hrun : runAll step s as ≠ .error e) : Along step P s as := by
  induction as generalizing s with
  | nil => trivial
  | cons a as ih =>
    have ha : Q a := has a mem_cons_self
    have hP : P s a := by
      by_contra hno
      apply hrun
      rw [runAll, hviolate s a ha hs hno]
      rfl
    refine ⟨hP, fun t ht ↦ ih (fun b hb ↦ has b (mem_cons_of_mem _ hb))
      (hstep s a t ha hs hP ht) ?_⟩
    rwa [runAll, bind_of_ok ht] at hrun

theorem along_and (hP : Along step P s as) (hQ : Along step Q s as) :
    Along step (fun s a ↦ P s a ∧ Q s a) s as := by
  induction as generalizing s with
  | nil => trivial
  | cons a as ih => exact ⟨⟨hP.1, hQ.1⟩, fun t ht ↦ ih (hP.2 t ht) (hQ.2 t ht)⟩

/-- A condition on inputs alone can be added to a condition along a run. -/
theorem along_and_of_forall {Q : α → Prop} (has : ∀ a ∈ as, Q a) (h : Along step P s as) :
    Along step (fun s a ↦ Q a ∧ P s a) s as :=
  along_and (along_of_forall fun _ ↦ has) h

/-- What follows from an invariant and a condition holds wherever the condition does. -/
theorem along_imp (hstep : ∀ s a s', I s → P s a → step s a = .ok s' → I s')
    (himp : ∀ s a, I s → P s a → Q s a) (hs : I s)
    (hP : Along step P s as) : Along step Q s as := by
  induction as generalizing s with
  | nil => trivial
  | cons a as ih =>
    exact ⟨himp s a hs hP.1, fun t ht ↦ ih (hstep s a t hs hP.1 ht) (hP.2 t ht)⟩

theorem along_of_append (h : Along step P s (as ++ bs)) : Along step P s as := by
  induction as generalizing s with
  | nil => trivial
  | cons a as ih => exact ⟨h.1, fun s' hs' ↦ ih (h.2 s' hs')⟩

theorem along_append (h : Along step P s (as ++ bs)) (hrun : runAll step s as = .ok t) :
    Along step P t bs := by
  induction as generalizing s with
  | nil =>
    cases hrun
    exact h
  | cons a as ih =>
    obtain ⟨s', hs', hrest⟩ := runAll_cons_eq_ok.mp hrun
    exact ih (h.2 s' hs') hrest

/-- **The exact condition of a property.** From an invariant state `Q` holds, a step meeting `P`
keeps the invariant, and a step violating `P` breaks `Q`. Then `Q` holds in every state of a run
exactly if the run is along `P`. -/
theorem along_iff_of_runAll {Q : σ → Prop} (hQ : ∀ s, I s → Q s)
    (hkeep : ∀ s a s', I s → P s a → step s a = .ok s' → I s')
    (hbreak : ∀ s a s', I s → ¬P s a → step s a = .ok s' → ¬Q s')
    (hs : I s) (hrun : runAll step s as = .ok s') :
    (Along step (fun t _ ↦ Q t) s as ∧ Q s') ↔ Along step P s as := by
  induction as generalizing s with
  | nil =>
    cases hrun
    exact ⟨fun _ ↦ trivial, fun _ ↦ ⟨trivial, hQ _ hs⟩⟩
  | cons a as ih =>
    obtain ⟨t, ht, hrest⟩ := runAll_cons_eq_ok.mp hrun
    by_cases hP : P s a
    · have hI := hkeep s a t hs hP ht
      constructor
      · rintro ⟨⟨-, hnext⟩, hend⟩
        refine ⟨hP, fun t' ht' ↦ ?_⟩
        obtain rfl := Except.ok.inj (ht.symm.trans ht')
        exact (ih hI hrest).mp ⟨hnext t ht, hend⟩
      · rintro ⟨-, hnext⟩
        obtain ⟨hnext', hend⟩ := (ih hI hrest).mpr (hnext t ht)
        refine ⟨⟨hQ s hs, fun t' ht' ↦ ?_⟩, hend⟩
        obtain rfl := Except.ok.inj (ht.symm.trans ht')
        exact hnext'
    · refine iff_of_false ?_ fun h ↦ hP h.1
      rintro ⟨⟨-, hnext⟩, hend⟩
      refine hbreak s a t hs hP ht ?_
      -- `Q` holds in the state after the bad step, whether the run ends there or goes on
      cases as with
      | nil =>
        cases hrest
        exact hend
      | cons b bs => exact (hnext t ht).1

/-- **The exact condition of a safe run.** From an invariant state `Q` holds. A step meeting `P`
keeps the invariant or stops in a way that is not bad; a step violating `P` stops in a bad way or
breaks `Q`. Then a run is along `P` exactly if `Q` holds in every state it reaches and it stops in
no bad way. The condition `A` is assumed of all steps. -/
theorem along_iff_of_prefixes {Q : σ → Prop} {A : σ → α → Prop} {bad : ε → Prop}
    (hQ : ∀ s, I s → Q s)
    (hkeep : ∀ s a s', I s → A s a → P s a → step s a = .ok s' → I s')
    (hstop : ∀ s a e, I s → A s a → P s a → step s a = .error e → ¬bad e)
    (hbreak : ∀ s a, I s → A s a → ¬P s a →
      (∃ e, step s a = .error e ∧ bad e) ∨ ∃ s', step s a = .ok s' ∧ ¬Q s')
    (hs : I s) (hA : Along step A s as) :
    (∀ pre, pre <+: as → (∀ s', runAll step s pre = .ok s' → Q s') ∧
      ∀ e, runAll step s pre = .error e → ¬bad e) ↔ Along step P s as := by
  have hnil : ∀ s, I s → (∀ s', runAll step s [] = .ok s' → Q s') ∧
      ∀ e, runAll step s [] = .error e → ¬bad e := by
    refine fun s hs ↦ ⟨fun s' hs' ↦ ?_, fun e he ↦ ?_⟩
    · cases hs'
      exact hQ s hs
    · cases he
  induction as generalizing s with
  | nil =>
    refine ⟨fun _ ↦ trivial, fun _ pre hpre ↦ ?_⟩
    rw [prefix_nil.mp hpre]
    exact hnil s hs
  | cons a as ih =>
    constructor
    · intro h
      have hP : P s a := by
        by_contra hno
        -- the run that ends with this step shows the violation
        obtain ⟨hok, herr⟩ := h [a] ⟨as, rfl⟩
        rw [runAll] at hok herr
        rcases hbreak s a hs hA.1 hno with ⟨e, he, hbad⟩ | ⟨t, ht, hnot⟩
        · rw [he] at herr
          exact herr e rfl hbad
        · rw [bind_of_ok ht] at hok
          exact hnot (hok t rfl)
      refine ⟨hP, fun t ht ↦ (ih (hkeep s a t hs hA.1 hP ht) (hA.2 t ht)).mp fun pre hpre ↦ ?_⟩
      have hcons := h (a :: pre) ((prefix_cons_inj a).mpr hpre)
      rwa [runAll, bind_of_ok ht] at hcons
    · rintro ⟨hP, hrest⟩ pre hpre
      cases pre with
      | nil => exact hnil s hs
      | cons b pre =>
        obtain ⟨rfl, hpre'⟩ := cons_prefix_cons.mp hpre
        cases ht : step s b with
        | error e =>
          rw [runAll, ht]
          refine ⟨fun s' hs' ↦ ?_, fun e' he' ↦ ?_⟩
          · cases hs'
          · cases he'
            exact hstop s b e hs hA.1 hP ht
        | ok t =>
          rw [runAll, bind_of_ok ht]
          exact (ih (hkeep s b t hs hA.1 hP ht) (hA.2 t ht)).mpr (hrest t ht) pre hpre'

/-- The exact condition of a safe run, where only states count. -/
theorem along_iff_of_reached {Q : σ → Prop} {A : σ → α → Prop} (hQ : ∀ s, I s → Q s)
    (hkeep : ∀ s a s', I s → A s a → P s a → step s a = .ok s' → I s')
    (hbreak : ∀ s a, I s → A s a → ¬P s a → ∃ s', step s a = .ok s' ∧ ¬Q s')
    (hs : I s) (hA : Along step A s as) :
    (∀ pre, pre <+: as → ∀ s', runAll step s pre = .ok s' → Q s') ↔ Along step P s as := by
  have hiff : (∀ pre, pre <+: as → (∀ s', runAll step s pre = .ok s' → Q s') ∧
      ∀ e, runAll step s pre = .error e → ¬False) ↔ Along step P s as :=
    along_iff_of_prefixes hQ hkeep (fun _ _ _ _ _ _ _ ↦ not_false)
      (fun s a hI hA hP ↦ Or.inr (hbreak s a hI hA hP)) hs hA
  rw [← hiff]
  exact forall₂_congr fun _ _ ↦ (and_iff_left fun _ _ ↦ not_false).symm

/-- **The product rule.** Where an input moves one machine of a family, a run of the family is a run
of each machine on its own inputs. -/
theorem runAll_family {ι : Type} [DecidableEq ι] {f g : ι → σ} {xs : List (ι × α)} :
    runAll (fun f x ↦ (step (f x.1) x.2).map (update f x.1)) f xs = .ok g ↔
      ∀ i, runAll step (f i) ((xs.filter (·.1 = i)).map Prod.snd) = .ok (g i) := by
  induction xs generalizing f with
  | nil => simp [funext_iff]
  | cons x xs ih =>
    obtain ⟨j, a⟩ := x
    have hj : (((j, a) :: xs).filter (·.1 = j)).map Prod.snd =
        a :: (xs.filter (·.1 = j)).map Prod.snd := by simp
    rw [runAll]
    cases hstep : step (f j) a with
    | error e =>
      refine iff_of_false (by rintro ⟨⟩) fun h ↦ ?_
      have hrun := h j
      rw [hj, runAll, hstep] at hrun
      cases hrun
    | ok t =>
      rw [Except.map, ok_bind, ih]
      refine forall_congr' fun i ↦ ?_
      rcases eq_or_ne j i with rfl | hi
      · rw [update_self, hj, runAll, hstep, ok_bind]
      · rw [update_of_ne hi.symm, filter_cons_of_neg (by simpa using hi)]

end Rules

/-! ## Guarded steps

Where several threads take turns, a step is an action of one of them. It may not be possible in the
state, and if it is, it may trip an assertion. -/

/-- Why an action does not lead to a next state. -/
inductive Halt where
  /-- The thread is not where the action starts. -/
  | disabled
  | fault (f : Fault)
  deriving DecidableEq, Repr

section Guards

variable {p : Prop} [Decidable p] {x : Checked σ} {s t : σ}

/-- The action `x`, possible if `p` holds. -/
def attempt (p : Prop) [Decidable p] (x : Checked σ) : Except Halt σ :=
  if p then x.mapError .fault else .error .disabled

/-- An action that is possible if `p` holds and trips no assertion. -/
def guarded (p : Prop) [Decidable p] (s : σ) : Except Halt σ := attempt p (.ok s)

theorem attempt_of (hp : p) : attempt p x = x.mapError .fault := if_pos hp

theorem attempt_of_not (hp : ¬p) : attempt p x = .error .disabled := if_neg hp

theorem attempt_eq_ok : attempt p x = .ok t ↔ p ∧ x = .ok t := by
  by_cases hp : p
  · rw [attempt_of hp, and_iff_right hp]
    cases x <;> simp [Except.mapError]
  · rw [attempt_of_not hp]
    simp [hp]

theorem attempt_eq_fault {f : Fault} : attempt p x = .error (.fault f) ↔ p ∧ x = .error f := by
  by_cases hp : p
  · rw [attempt_of hp, and_iff_right hp]
    cases x <;> simp [Except.mapError]
  · rw [attempt_of_not hp]
    simp [hp]

theorem map_attempt {f : σ → τ} {y : Checked τ} (h : p → x.map f = y) :
    (attempt p x).map f = attempt p y := by
  by_cases hp : p
  · rw [attempt_of hp, attempt_of hp, ← h hp]
    cases x <;> rfl
  · rw [attempt_of_not hp, attempt_of_not hp]
    rfl

theorem attempt_ne_fault (h : p → ∃ t, x = .ok t) (f : Fault) :
    attempt p x ≠ .error (.fault f) := by
  intro he
  obtain ⟨hp, he⟩ := attempt_eq_fault.mp he
  obtain ⟨t, ht⟩ := h hp
  rw [ht] at he
  cases he

theorem guarded_ne_fault (f : Fault) : guarded p s ≠ .error (.fault f) :=
  attempt_ne_fault (fun _ ↦ ⟨s, rfl⟩) f

theorem guarded_eq_ok : guarded p s = .ok t ↔ p ∧ s = t := by
  rw [guarded, attempt_eq_ok, Except.ok.injEq]

end Guards

/-- When no step from an invariant state trips an assertion, no run does. -/
theorem runAll_ne_fault {step : σ → α → Except Halt σ} {I : σ → Prop} {f : Fault}
    (hstep : ∀ s a s', I s → step s a = .ok s' → I s')
    (hne : ∀ s a, I s → step s a ≠ .error (.fault f)) {s : σ} (hs : I s) (as : List α) :
    runAll step s as ≠ .error (.fault f) :=
  runAll_ne_error (P := fun _ _ ↦ True) (fun s a s' hI _ ↦ hstep s a s' hI)
    (fun s a hI _ ↦ hne s a hI) hs (along_of_forall fun _ _ _ ↦ trivial)
