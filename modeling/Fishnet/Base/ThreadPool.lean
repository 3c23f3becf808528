import Fishnet.Library.Run
import Fishnet.Library.Threads

/-!
# The thread pool of the base library

Producers call `run`, which puts a task into a queue; workers take tasks out of it. There are two
condition variables, `notEmpty_` for the workers and `notFull_` for the producers. The latter is
used only if the queue is bounded. `stop` clears `running_`, wakes everybody and joins the workers.

A critical section is one action. If it comes to a wait, it ends there, and the thread executes the
section again when it is back. The loop of a worker tests `running_` without the mutex.

The pool has been started with `n` workers. A task may be an empty function, which is then not
called; that makes no difference here. `threadInitCallback_` does not touch the pool.

## History

The fields `pushed` and `taken` list the tasks put into the queue and taken out of it. No action
depends on them.

## Main results

* `ThreadPool.queue_discipline`: the bound, the order, and who is left waiting.
-/

namespace Fishnet

open Function List CondVar

/-- Where a worker is in `runInThread`. -/
inductive WorkerPlace (τ : Type) where
  /-- Before the test of `running_`. -/
  | testing
  /-- In `take`. -/
  | taking
  /-- With what `take` has returned. -/
  | holding (task : Option τ)
  | exited
  deriving DecidableEq, Repr

/-- The progress of `stop`. -/
inductive StopPlace where
  | notCalled
  /-- So many workers have been joined. -/
  | joining (joined : ℕ)
  | returned
  deriving DecidableEq, Repr

/-- A pool with `n` workers, whose producers are named by `κ`. -/
structure ThreadPool (n : ℕ) (κ τ : Type) where
  /-- `maxQueueSize_`. -/
  maxQueueSize : ℕ
  /-- `running_`. -/
  running : Bool
  /-- `queue_`. -/
  queue : List τ
  /-- `notEmpty_`. -/
  notEmpty : CondVar (Fin n)
  /-- `notFull_`. -/
  notFull : CondVar κ
  worker : Fin n → WorkerPlace τ
  /-- The task that a producer is in `run` with. -/
  producer : κ → Option τ
  stopper : StopPlace
  pushed : List τ
  taken : List τ

namespace ThreadPool

variable {n : ℕ} {κ τ : Type}

/-- The pool after `start`. -/
def started (maxQueueSize : ℕ) : ThreadPool n κ τ where
  maxQueueSize := maxQueueSize
  running := true
  queue := []
  notEmpty := .new
  notFull := .new
  worker _ := .testing
  producer _ := none
  stopper := .notCalled
  pushed := []
  taken := []

/-! ## The functions -/

def isFull (s : ThreadPool n κ τ) : Bool :=
  0 < s.maxQueueSize && s.maxQueueSize ≤ s.queue.length

variable [DecidableEq κ] (s : ThreadPool n κ τ)

/-- The critical section of `run`, entered for the first time or after a wait. If a worker is
notified, it is `wakes`. -/
def run (k : κ) (task : τ) (wakes : Option (Fin n)) : Checked (ThreadPool n κ τ) :=
  if s.isFull && s.running then .ok { s with notFull := s.notFull.wait k }
  else if s.running = false then
    .ok { s with notFull := s.notFull.leave k, producer := update s.producer k none }
  else do
    assert (s.isFull = false)
    .ok { s with
      queue := s.queue ++ [task], pushed := s.pushed ++ [task]
      notEmpty := s.notEmpty.notifyOne wakes
      notFull := s.notFull.leave k, producer := update s.producer k none }

/-- The critical section of `take`. If a producer is notified, it is `wakes`. -/
def take (i : Fin n) (wakes : Option κ) : ThreadPool n κ τ :=
  if s.queue.isEmpty && s.running then { s with notEmpty := s.notEmpty.wait i }
  else
    match s.queue with
    | [] =>
      { s with
        notEmpty := s.notEmpty.leave i, worker := update s.worker i (.holding none) }
    | task :: queue =>
      { s with
        queue := queue, taken := s.taken ++ [task]
        notEmpty := s.notEmpty.leave i
        notFull := if 0 < s.maxQueueSize then s.notFull.notifyOne wakes else s.notFull
        worker := update s.worker i (.holding (some task)) }

/-- The critical section of `stop`. -/
def stop : ThreadPool n κ τ :=
  { s with
    running := false, notEmpty := s.notEmpty.notifyAll, notFull := s.notFull.notifyAll
    stopper := .joining 0 }

/-! ## The actions -/

inductive Action (n : ℕ) (κ τ : Type) where
  /-- A producer calls `run`. -/
  | call (k : κ) (task : τ)
  | run (k : κ) (wakes : Option (Fin n))
  /-- A worker tests `running_`. -/
  | test (i : Fin n)
  | take (i : Fin n) (wakes : Option κ)
  /-- A worker has executed its task. -/
  | execute (i : Fin n)
  | stop
  /-- The next worker is joined, or there is none left and `stop` returns. -/
  | join
  deriving DecidableEq, Repr

/-- `stop` waits for the worker with the next number. -/
def join (joined : ℕ) : Except Halt (ThreadPool n κ τ) :=
  if h : joined < n then
    match s.worker ⟨joined, h⟩ with
    | .exited => .ok { s with stopper := .joining (joined + 1) }
    | _ => .error .disabled
  else .ok { s with stopper := .returned }

def step : Action n κ τ → Except Halt (ThreadPool n κ τ)
  | .call k task =>
    match s.producer k with
    | none => .ok { s with producer := update s.producer k (some task) }
    | some _ => .error .disabled
  | .run k wakes =>
    match s.producer k with
    | none => .error .disabled
    | some task => attempt (s.notEmpty.CanNotify wakes) (s.run k task wakes)
  | .test i =>
    match s.worker i with
    | .testing =>
      .ok { s with
        worker := update s.worker i (if s.running then .taking else .exited) }
    | _ => .error .disabled
  | .take i wakes =>
    match s.worker i with
    | .taking => guarded (s.notFull.CanNotify wakes) (s.take i wakes)
    | _ => .error .disabled
  | .execute i =>
    match s.worker i with
    | .holding _ => .ok { s with worker := update s.worker i .testing }
    | _ => .error .disabled
  | .stop =>
    match s.stopper with
    | .notCalled => .ok s.stop
    | _ => .error .disabled
  | .join =>
    match s.stopper with
    | .joining joined => s.join joined
    | _ => .error .disabled

variable {s} {s' : ThreadPool n κ τ}

/-- What an action can do. -/
inductive StepCase (s : ThreadPool n κ τ) : Action n κ τ → ThreadPool n κ τ → Prop
  | call (k : κ) (task : τ) :
    StepCase s (.call k task) { s with producer := update s.producer k (some task) }
  /-- A producer blocks. -/
  | waitFull {k : κ} {wakes : Option (Fin n)} (hfull : s.isFull = true)
      (hrunning : s.running = true) :
    StepCase s (.run k wakes) { s with notFull := s.notFull.wait k }
  /-- `run` returns without effect. -/
  | refuse {k : κ} {wakes : Option (Fin n)} (hrunning : s.running = false) :
    StepCase s (.run k wakes) { s with
      notFull := s.notFull.leave k, producer := update s.producer k none }
  | push {k : κ} (task : τ) {wakes : Option (Fin n)} (hrunning : s.running = true)
      (hfull : s.isFull = false) (hwakes : s.notEmpty.CanNotify wakes) :
    StepCase s (.run k wakes) { s with
      queue := s.queue ++ [task], pushed := s.pushed ++ [task]
      notEmpty := s.notEmpty.notifyOne wakes
      notFull := s.notFull.leave k, producer := update s.producer k none }
  | test (i : Fin n) :
    StepCase s (.test i) { s with
      worker := update s.worker i (if s.running then .taking else .exited) }
  /-- A worker blocks. -/
  | waitEmpty {i : Fin n} {wakes : Option κ} (hempty : s.queue = [])
      (hrunning : s.running = true) :
    StepCase s (.take i wakes) { s with notEmpty := s.notEmpty.wait i }
  /-- `take` returns without a task. -/
  | takeNothing (i : Fin n) {wakes : Option κ} (hempty : s.queue = []) :
    StepCase s (.take i wakes) { s with
      notEmpty := s.notEmpty.leave i, worker := update s.worker i (.holding none) }
  | take (i : Fin n) {wakes : Option κ} {task : τ} {queue : List τ} {notFull : CondVar κ}
      (hqueue : s.queue = task :: queue) (hnotFull : notFull.waiting ⊆ s.notFull.waiting) :
    StepCase s (.take i wakes) { s with
      queue := queue, taken := s.taken ++ [task], notEmpty := s.notEmpty.leave i
      notFull := notFull, worker := update s.worker i (.holding (some task)) }
  | execute (i : Fin n) : StepCase s (.execute i) { s with worker := update s.worker i .testing }
  | stop : StepCase s .stop s.stop
  | join (stopper : StopPlace) : StepCase s .join { s with stopper := stopper }

theorem run_cases (k : κ) (task : τ) {wakes : Option (Fin n)}
    (hwakes : s.notEmpty.CanNotify wakes) :
    ∃ s', s.run k task wakes = .ok s' ∧ StepCase s (.run k wakes) s' := by
  cases hrunning : s.running with
  | false =>
    refine ⟨_, ?_, .refuse hrunning⟩
    rw [run, hrunning, Bool.and_false, if_neg Bool.false_ne_true, if_pos rfl]
  | true =>
    cases hfull : s.isFull with
    | true =>
      refine ⟨_, ?_, .waitFull hfull hrunning⟩
      rw [run, hrunning, hfull, Bool.and_true, if_pos rfl]
    | false =>
      refine ⟨_, ?_, .push task hrunning hfull hwakes⟩
      rw [run, hrunning, hfull, Bool.false_and, if_neg Bool.false_ne_true,
        if_neg Bool.true_eq_false_eq_False, assert_bind_of rfl]

theorem take_cases (i : Fin n) (wakes : Option κ) :
    StepCase s (.take i wakes) (s.take i wakes) := by
  cases hqueue : s.queue with
  | nil =>
    cases hrunning : s.running with
    | true =>
      have htake : s.take i wakes = { s with notEmpty := s.notEmpty.wait i } := by
        simp [ThreadPool.take, hqueue, hrunning]
      exact htake ▸ .waitEmpty hqueue hrunning
    | false =>
      have htake : s.take i wakes = { s with
          notEmpty := s.notEmpty.leave i
          worker := update s.worker i (.holding none) } := by
        simp [ThreadPool.take, hqueue, hrunning]
      exact htake ▸ .takeNothing i hqueue
  | cons task queue =>
    have htake : s.take i wakes = { s with
        queue := queue, taken := s.taken ++ [task], notEmpty := s.notEmpty.leave i
        notFull := if 0 < s.maxQueueSize then s.notFull.notifyOne wakes else s.notFull
        worker := update s.worker i (.holding (some task)) } := by
      simp [ThreadPool.take, hqueue]
    refine htake ▸ .take i hqueue ?_
    split_ifs
    · exact waiting_notifyOne_subset
    · exact Finset.Subset.refl _

theorem step_cases {a : Action n κ τ} : s.step a = .ok s' → StepCase s a s' := by
  cases a with
  | call k task =>
    rw [step]
    cases s.producer k with
    | none =>
      rintro ⟨⟩
      exact .call k task
    | some x => exact nofun
  | run k wakes =>
    rw [step]
    cases s.producer k with
    | none => exact nofun
    | some task =>
      intro hs
      obtain ⟨hwakes, hrun⟩ := attempt_eq_ok.mp hs
      obtain ⟨t, ht, hcase⟩ := run_cases k task hwakes
      rw [hrun] at ht
      exact Except.ok.inj ht ▸ hcase
  | test i =>
    rw [step]
    cases s.worker i with
    | testing =>
      rintro ⟨⟩
      exact .test i
    | _ => exact nofun
  | take i wakes =>
    rw [step]
    cases s.worker i with
    | taking =>
      intro hs
      obtain ⟨-, rfl⟩ := guarded_eq_ok.mp hs
      exact take_cases i wakes
    | _ => exact nofun
  | execute i =>
    rw [step]
    cases s.worker i with
    | holding task =>
      rintro ⟨⟩
      exact .execute i
    | _ => exact nofun
  | stop =>
    rw [step]
    cases s.stopper with
    | notCalled =>
      rintro ⟨⟩
      exact .stop
    | _ => exact nofun
  | join =>
    rw [step]
    cases s.stopper with
    | joining joined =>
      change s.join joined = _ → _
      rw [join]
      split_ifs with hlt
      · cases s.worker ⟨joined, hlt⟩ with
        | exited =>
          rintro ⟨⟩
          exact .join _
        | _ => exact nofun
      · rintro ⟨⟩
        exact .join _
    | _ => exact nofun

/-! ## The invariant -/

section Invariant

variable {n : ℕ} {κ τ : Type} {s : ThreadPool n κ τ}

structure Inv (s : ThreadPool n κ τ) : Prop where
  bounded : 0 < s.maxQueueSize → s.queue.length ≤ s.maxQueueSize
  order : s.pushed = s.taken ++ s.queue
  /-- After `stop` nobody depends on a notification. -/
  released : s.running = false → s.notEmpty.waiting = ∅ ∧ s.notFull.waiting = ∅
  /-- A task in the queue has a worker to take it. -/
  served : s.running = true → s.queue ≠ [] → ∃ i, i ∉ s.notEmpty.waiting
  alive : s.running = true → ∀ i, s.worker i ≠ .exited

theorem inv_started (maxQueueSize : ℕ) : Inv (started maxQueueSize : ThreadPool n κ τ) where
  bounded _ := Nat.zero_le _
  order := rfl
  released h := by cases h
  served _ h := absurd rfl h
  alive _ _ := nofun

theorem Inv.setPlaces (h : Inv s) (producer : κ → Option τ) (stopper : StopPlace) :
    Inv { s with producer := producer, stopper := stopper } :=
  ⟨h.bounded, h.order, h.released, h.served, h.alive⟩

/-- A worker moves, and does not exit while the pool is running. -/
theorem Inv.moveWorker (h : Inv s) (i : Fin n) {place : WorkerPlace τ}
    (hplace : s.running = true → place ≠ .exited) :
    Inv { s with worker := update s.worker i place } where
  bounded := h.bounded
  order := h.order
  released := h.released
  served := h.served
  alive hrunning j := by
    rcases eq_or_ne j i with rfl | hj
    · exact (update_self ..).trans_ne (hplace hrunning)
    · exact (update_of_ne hj ..).trans_ne (h.alive hrunning j)

theorem Inv.shrinkWaiting (h : Inv s) {notEmpty : CondVar (Fin n)} {notFull : CondVar κ}
    (hempty : notEmpty.waiting ⊆ s.notEmpty.waiting)
    (hfull : notFull.waiting ⊆ s.notFull.waiting) :
    Inv { s with notEmpty := notEmpty, notFull := notFull } where
  bounded := h.bounded
  order := h.order
  released hrunning := by
    obtain ⟨he, hf⟩ := h.released hrunning
    exact ⟨Finset.subset_empty.mp (he ▸ hempty), Finset.subset_empty.mp (hf ▸ hfull)⟩
  served hrunning hqueue := by
    obtain ⟨i, hi⟩ := h.served hrunning hqueue
    exact ⟨i, fun hmem ↦ hi (hempty hmem)⟩
  alive := h.alive

/-- A worker blocks only when the queue is empty, and a producer only when it is full. -/
theorem Inv.wait (h : Inv s) (hrunning : s.running = true) {notEmpty : CondVar (Fin n)}
    (hempty : s.queue ≠ [] → notEmpty = s.notEmpty) (notFull : CondVar κ) :
    Inv { s with notEmpty := notEmpty, notFull := notFull } where
  bounded := h.bounded
  order := h.order
  released hstopped := absurd hstopped (by simp [hrunning])
  served _ hqueue := by
    change ∃ i, i ∉ notEmpty.waiting
    rw [hempty hqueue]
    exact h.served hrunning hqueue
  alive := h.alive

theorem lt_of_isFull_eq_false (h : s.isFull = false) (hmax : 0 < s.maxQueueSize) :
    s.queue.length < s.maxQueueSize := by
  rw [isFull] at h
  simpa [hmax] using h

/-- Pushing keeps the bound, and the notification finds a worker. -/
theorem Inv.push (h : Inv s) (hn : 0 < n) (task : τ) {wakes : Option (Fin n)}
    (hrunning : s.running = true) (hfull : s.isFull = false)
    (hwakes : s.notEmpty.CanNotify wakes) :
    Inv { s with
      queue := s.queue ++ [task], pushed := s.pushed ++ [task]
      notEmpty := s.notEmpty.notifyOne wakes } where
  bounded hmax := by
    have := lt_of_isFull_eq_false hfull hmax
    rw [length_append, length_singleton]
    exact this
  order := by rw [h.order, append_assoc]
  released hstopped := absurd hstopped (by simp [hrunning])
  served _ _ := by
    have : Nonempty (Fin n) := ⟨⟨0, hn⟩⟩
    exact exists_notMem_waiting_notifyOne hwakes
  alive := h.alive

theorem Inv.take (h : Inv s) {i : Fin n} {task : τ} {queue : List τ}
    (hqueue : s.queue = task :: queue) :
    Inv { s with
      queue := queue, taken := s.taken ++ [task], notEmpty := s.notEmpty.leave i } where
  bounded hmax := by
    have hle := h.bounded hmax
    rw [hqueue, length_cons] at hle
    exact Nat.le_of_succ_le hle
  order := by rw [h.order, hqueue, append_assoc, singleton_append]
  released hstopped := by
    obtain ⟨hempty, hfull⟩ := h.released hstopped
    exact ⟨Finset.subset_empty.mp (hempty ▸ waiting_leave_subset), hfull⟩
  -- the worker that takes this task will look for the next
  served _ _ := ⟨i, fun hi ↦ (mem_waiting_leave.mp hi).1 rfl⟩
  alive := h.alive

end Invariant

theorem Inv.stop (h : Inv s) : Inv s.stop where
  bounded := h.bounded
  order := h.order
  released _ := ⟨rfl, rfl⟩
  served hrunning := by cases hrunning
  alive hrunning := by cases hrunning

theorem Inv.step (hn : 0 < n) (h : Inv s) {a : Action n κ τ} (hs : s.step a = .ok s') : Inv s' := by
  cases step_cases hs with
  | call k task => exact h.setPlaces _ _
  | waitFull hfull hrunning => exact h.wait hrunning (fun _ ↦ rfl) _
  | refuse hrunning =>
    exact (h.shrinkWaiting (Finset.Subset.refl _) waiting_leave_subset).setPlaces _ _
  | push task hrunning hfull hwakes =>
    have hpush := h.push hn task hrunning hfull hwakes
    exact (hpush.shrinkWaiting (Finset.Subset.refl _) waiting_leave_subset).setPlaces _ _
  | test i =>
    refine h.moveWorker i fun hrunning ↦ ?_
    rw [if_pos hrunning]
    exact nofun
  | waitEmpty hempty hrunning => exact h.wait hrunning (fun hne ↦ absurd hempty hne) _
  | takeNothing i hempty =>
    exact (h.shrinkWaiting waiting_leave_subset (Finset.Subset.refl _)).moveWorker i
      fun _ ↦ nofun
  | take i hqueue hnotFull =>
    exact ((h.take hqueue).shrinkWaiting (Finset.Subset.refl _) hnotFull).moveWorker i fun _ ↦ nofun
  | execute i => exact h.moveWorker i fun _ ↦ nofun
  | stop => exact h.stop
  | join stopper => exact h.setPlaces _ _

theorem pushed_of_not_running (hrunning : s.running = false) {a : Action n κ τ}
    (hs : s.step a = .ok s') : s'.running = false ∧ s'.pushed = s.pushed := by
  cases step_cases hs with
  | waitFull hfull h => simp [hrunning] at h
  | push task h => simp [hrunning] at h
  | waitEmpty hempty h => simp [hrunning] at h
  | stop => exact ⟨rfl, rfl⟩
  | _ => exact ⟨hrunning, rfl⟩

theorem running_step {a : Action n κ τ} (hs : s.step a = .ok s') :
    s'.running = true ↔ s.running = true ∧ .stop ≠ a := by
  cases step_cases hs <;> simp [ThreadPool.stop]

/-- A pool is running until `stop` is called. -/
theorem running_runAll {actions : List (Action n κ τ)} (hrun : runAll step s actions = .ok s') :
    s'.running = true ↔ s.running = true ∧ .stop ∉ actions := by
  induction actions generalizing s with
  | nil =>
    cases hrun
    simp
  | cons a actions ih =>
    obtain ⟨t, ht, hrun⟩ := runAll_cons_eq_ok.mp hrun
    rw [ih hrun, running_step ht, and_assoc, mem_cons, not_or]

theorem maxQueueSize_step {a : Action n κ τ} (hs : s.step a = .ok s') :
    s'.maxQueueSize = s.maxQueueSize := by
  cases step_cases hs <;> rfl

/-- The assertion in `run` does not fail. -/
theorem step_ne_fault (s : ThreadPool n κ τ) (a : Action n κ τ) (f : Fault) :
    s.step a ≠ .error (.fault f) := by
  cases a with
  | call k task =>
    rw [step]
    split <;> exact nofun
  | run k wakes =>
    rw [step]
    split
    · exact nofun
    · refine attempt_ne_fault (fun hwakes ↦ ?_) f
      obtain ⟨t, ht, -⟩ := run_cases k _ hwakes
      exact ⟨t, ht⟩
  | test i =>
    rw [step]
    split <;> exact nofun
  | take i wakes =>
    rw [step]
    split
    · exact guarded_ne_fault f
    · exact nofun
  | execute i =>
    rw [step]
    split <;> exact nofun
  | stop =>
    rw [step]
    split <;> exact nofun
  | join =>
    rw [step]
    split
    · rw [ThreadPool.join]
      split_ifs
      · split <;> exact nofun
      · exact nofun
    · exact nofun

/-- **The discipline of the queue.** A pool with at least one worker has executed any interleaving
of critical sections. The queue respects its bound. The tasks were taken in the order in which they
were pushed, each once. Once `stop` has been called, `running_` is false, no producer and no worker
is blocked without a notification, and nothing is enqueued from then on. Before, if there is a task
in the queue, some worker is not blocked, or has been notified. The assertion never fails. -/
theorem queue_discipline (hn : 0 < n) {maxQueueSize : ℕ} {actions : List (Action n κ τ)}
    (hrun : runAll step (started maxQueueSize) actions = .ok s) :
    (0 < maxQueueSize → s.queue.length ≤ maxQueueSize) ∧
    s.pushed = s.taken ++ s.queue ∧
    (.stop ∈ actions → s.running = false ∧ s.notEmpty.waiting = ∅ ∧ s.notFull.waiting = ∅ ∧
      ∀ later s', runAll step s later = .ok s' → s'.pushed = s.pushed) ∧
    (.stop ∉ actions → s.running = true ∧
      (s.queue ≠ [] → ∃ i, i ∉ s.notEmpty.waiting ∧ s.worker i ≠ .exited)) ∧
    ∀ a, s.step a ≠ .error (.fault .assertion) := by
  have hinv : Inv s := runAll_invariant (fun _ _ _ h hs ↦ h.step hn hs) (inv_started _) hrun
  have hmax : s.maxQueueSize = maxQueueSize :=
    runAll_invariant (I := fun s ↦ s.maxQueueSize = maxQueueSize)
      (fun _ _ _ h hs ↦ (maxQueueSize_step hs).trans h) rfl hrun
  have hrunning : s.running = true ↔ .stop ∉ actions :=
    (running_runAll hrun).trans (and_iff_right rfl)
  refine ⟨fun hpos ↦ ?_, hinv.order, fun hstop ↦ ?_, fun hstop ↦ ?_, fun a ↦ step_ne_fault s a _⟩
  · have hbounded := hinv.bounded
    rw [hmax] at hbounded
    exact hbounded hpos
  · have hstopped : s.running = false := by
      rwa [← Bool.not_eq_true, hrunning, not_not]
    obtain ⟨hempty, hfull⟩ := hinv.released hstopped
    refine ⟨hstopped, hempty, hfull, fun later s' hlater ↦ ?_⟩
    have hkeep : s'.running = false ∧ s'.pushed = s.pushed := by
      refine runAll_invariant (I := fun t ↦ t.running = false ∧ t.pushed = s.pushed) ?_
        ⟨hstopped, rfl⟩ hlater
      rintro t a t' ⟨hrunning, hpushed⟩ hs
      obtain ⟨hrunning', hpushed'⟩ := pushed_of_not_running hrunning hs
      exact ⟨hrunning', hpushed'.trans hpushed⟩
    exact hkeep.2
  · refine ⟨hrunning.mpr hstop, fun hqueue ↦ ?_⟩
    obtain ⟨i, hi⟩ := hinv.served (hrunning.mpr hstop) hqueue
    exact ⟨i, hi, hinv.alive (hrunning.mpr hstop) i⟩

/-- Two workers wait, a task is pushed into a queue with one place and wakes the first of them, and
a second producer has to wait. -/
def fillQueue : List (Action 2 Bool ℕ) :=
  [.test 0, .take 0 none, .test 1, .take 1 none, .call true 7, .run true (some 0), .call false 8,
    .run false (some 1)]

/-- `stop` leaves neither the second worker nor the second producer waiting. -/
theorem queue_discipline_one_place :
    ∃ s : ThreadPool 2 Bool ℕ, runAll step (started 1) fillQueue = .ok s ∧
      (s.queue = [7] ∧ s.notEmpty.waiting = {1} ∧ s.notFull.waiting = {false}) ∧
      (∃ i, i ∉ s.notEmpty.waiting ∧ s.worker i ≠ .exited) ∧ ∃ s', s.step .stop = .ok s' ∧
        s'.running = false ∧ s'.notEmpty.waiting = ∅ ∧ s'.notFull.waiting = ∅ := by
  refine exists_ok_of_map (fun s ↦ (s.queue, s.notEmpty.waiting, s.notFull.waiting, s.stopper))
    ([7], {1}, {false}, .notCalled) (by decide +kernel) fun s hs hobserved ↦ ?_
  simp only [Prod.mk.injEq] at hobserved
  obtain ⟨hqueue, hempty, hfull, hstopper⟩ := hobserved
  obtain ⟨-, -, -, hbefore, -⟩ := queue_discipline (by decide) hs
  have hstop : s.step .stop = .ok s.stop := by rw [step, hstopper]
  have hrun : runAll step (started 1) (fillQueue ++ [.stop]) = .ok s.stop :=
    runAll_append_eq_ok.mpr ⟨s, hs, runAll_cons_eq_ok.mpr ⟨_, hstop, rfl⟩⟩
  obtain ⟨-, -, hafter, -⟩ := queue_discipline (by decide) hrun
  obtain ⟨hrunning, hempty', hfull', -⟩ := hafter (by decide)
  exact ⟨⟨hqueue, hempty, hfull⟩, (hbefore (by decide)).2 (by simp [hqueue]), s.stop, hstop,
    hrunning, hempty', hfull'⟩

end ThreadPool

end Fishnet
