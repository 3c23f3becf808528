import Fishnet.Library.Run
import Fishnet.Library.Threads

/-!
# The thread pool of `zfish.hpp`

`put` appends a task under the mutex, or throws if the pool is closed, and calls `notify_one` after
it has released the mutex. A worker waits until there is a task or the pool is closed. It leaves
only when there is no task left. `close` sets the flag under the mutex, calls `notify_all` and joins
the workers. A second `close` returns at once.

A critical section is one action. If it comes to a wait, it ends there, and the worker executes the
section again when it is back.

## History

The fields `pushed`, `taken`, `executed` and `thrown` list the tasks accepted, taken, executed, and
refused with an exception. `notifiedAll` says that `notify_all` has been called, and `closeReturned`
that the `close` that has set the flag has returned. No action depends on them.

## Main results

* `ThreadPool.executes_accepted_tasks`: every accepted task is executed once, before `close`
  returns.
-/

namespace Fishnet

open Function

namespace Zfish

/-- Where a worker is. -/
inductive WorkerPlace (τ : Type) where
  /-- Before the critical section, or in the wait. -/
  | taking
  | holding (task : τ)
  | exited
  deriving DecidableEq, Repr

/-- The task that a worker holds. -/
def WorkerPlace.holds {τ : Type} : WorkerPlace τ → Multiset τ
  | holding task => {task}
  | _ => 0

/-- Where a thread is that uses the pool. -/
inductive CallerPlace (τ : Type) where
  | idle
  /-- Before the critical section of `put`. -/
  | putting (task : τ)
  /-- Before `notify_one`. -/
  | notifying
  /-- Before the critical section of `close`. -/
  | closing
  /-- Before `notify_all`. -/
  | notifyingAll
  /-- So many workers have been joined. -/
  | joining (joined : ℕ)
  deriving DecidableEq, Repr

/-- A pool with `n` workers, used by the threads in `κ`. -/
structure ThreadPool (n : ℕ) (κ τ : Type) where
  /-- `close_`. -/
  closed : Bool
  /-- `task_queue_`. -/
  taskQueue : List τ
  /-- `cond_`. -/
  cond : CondVar (Fin n)
  worker : Fin n → WorkerPlace τ
  caller : κ → CallerPlace τ
  pushed : List τ
  taken : List τ
  executed : List τ
  thrown : List τ
  notifiedAll : Bool
  closeReturned : Bool

namespace ThreadPool

variable {n : ℕ} {κ τ : Type}

/-- A pool as constructed. -/
def new : ThreadPool n κ τ where
  closed := false
  taskQueue := []
  cond := .new
  worker _ := .taking
  caller _ := .idle
  pushed := []
  taken := []
  executed := []
  thrown := []
  notifiedAll := false
  closeReturned := false

/-! ## The functions -/

/-- The critical section of a worker. -/
def take (s : ThreadPool n κ τ) (i : Fin n) : Checked (ThreadPool n κ τ) :=
  if !(s.closed || !s.taskQueue.isEmpty) then .ok { s with cond := s.cond.wait i }
  else if s.closed && s.taskQueue.isEmpty then
    .ok { s with cond := s.cond.leave i, worker := update s.worker i .exited }
  else
    match s.taskQueue with
    | [] => .error .badAccess
    | task :: taskQueue =>
      .ok { s with
        cond := s.cond.leave i, taskQueue := taskQueue, taken := s.taken ++ [task]
        worker := update s.worker i (.holding task) }

variable [DecidableEq κ] (s : ThreadPool n κ τ)

/-- A thread that uses the pool moves. -/
def moveCaller (k : κ) (place : CallerPlace τ) : ThreadPool n κ τ :=
  { s with caller := update s.caller k place }

/-- The critical section of `put`. -/
def put (k : κ) (task : τ) : ThreadPool n κ τ :=
  if s.closed then { s.moveCaller k .idle with thrown := s.thrown ++ [task] }
  else
    { s.moveCaller k .notifying with
      taskQueue := s.taskQueue ++ [task], pushed := s.pushed ++ [task] }

/-- The critical section of `close`. -/
def close (k : κ) : ThreadPool n κ τ :=
  if s.closed then s.moveCaller k .idle else { s.moveCaller k .notifyingAll with closed := true }

/-- `close` joins the worker with the next number, or returns. -/
def join (k : κ) (joined : ℕ) : Except Halt (ThreadPool n κ τ) :=
  if h : joined < n then
    match s.worker ⟨joined, h⟩ with
    | .exited => .ok (s.moveCaller k (.joining (joined + 1)))
    | _ => .error .disabled
  else .ok { s.moveCaller k .idle with closeReturned := true }

/-! ## The actions -/

inductive Action (n : ℕ) (κ τ : Type) where
  /-- A thread calls `put`. -/
  | callPut (k : κ) (task : τ)
  | put (k : κ)
  | notifyOne (k : κ) (wakes : Option (Fin n))
  /-- A thread calls `close`. -/
  | callClose (k : κ)
  | close (k : κ)
  | notifyAll (k : κ)
  | join (k : κ)
  | take (i : Fin n)
  /-- A worker executes its task. -/
  | execute (i : Fin n)
  deriving DecidableEq, Repr

def step : Action n κ τ → Except Halt (ThreadPool n κ τ)
  | .callPut k task =>
    match s.caller k with
    | .idle => .ok (s.moveCaller k (.putting task))
    | _ => .error .disabled
  | .put k =>
    match s.caller k with
    | .putting task => .ok (s.put k task)
    | _ => .error .disabled
  | .notifyOne k wakes =>
    match s.caller k with
    | .notifying =>
      guarded (s.cond.CanNotify wakes)
        { s.moveCaller k .idle with cond := s.cond.notifyOne wakes }
    | _ => .error .disabled
  | .callClose k =>
    match s.caller k with
    | .idle => .ok (s.moveCaller k .closing)
    | _ => .error .disabled
  | .close k =>
    match s.caller k with
    | .closing => .ok (s.close k)
    | _ => .error .disabled
  | .notifyAll k =>
    match s.caller k with
    | .notifyingAll =>
      .ok { s.moveCaller k (.joining 0) with cond := s.cond.notifyAll, notifiedAll := true }
    | _ => .error .disabled
  | .join k =>
    match s.caller k with
    | .joining joined => s.join k joined
    | _ => .error .disabled
  | .take i =>
    match s.worker i with
    | .taking => attempt True (s.take i)
    | _ => .error .disabled
  | .execute i =>
    match s.worker i with
    | .holding task =>
      .ok { s with
        executed := s.executed ++ [task], worker := update s.worker i .taking }
    | _ => .error .disabled

variable {s} {s' : ThreadPool n κ τ}

/-- What an action can do. -/
inductive StepCase (s : ThreadPool n κ τ) : ThreadPool n κ τ → Prop
  /-- A thread calls a function, notifies nobody, or finds the pool closed already. -/
  | move (k : κ) (place : CallerPlace τ) (hall : place ≠ .notifyingAll)
      (hjoin : ∀ joined, place ≠ .joining joined) : StepCase s (s.moveCaller k place)
  | refuse (k : κ) (task : τ) :
    StepCase s { s.moveCaller k .idle with thrown := s.thrown ++ [task] }
  | push (k : κ) (task : τ) (hopen : s.closed = false) :
    StepCase s { s.moveCaller k .notifying with
      taskQueue := s.taskQueue ++ [task], pushed := s.pushed ++ [task] }
  | notifyOne (k : κ) (wakes : Option (Fin n)) :
    StepCase s { s.moveCaller k .idle with cond := s.cond.notifyOne wakes }
  | close (k : κ) : StepCase s { s.moveCaller k .notifyingAll with closed := true }
  | notifyAll (k : κ) (hcaller : s.caller k = .notifyingAll) :
    StepCase s { s.moveCaller k (.joining 0) with cond := s.cond.notifyAll, notifiedAll := true }
  | join (k : κ) (joined : ℕ) (hcaller : s.caller k = .joining joined) (hlt : joined < n)
      (hexited : s.worker ⟨joined, hlt⟩ = .exited) :
    StepCase s (s.moveCaller k (.joining (joined + 1)))
  | closeReturns (k : κ) (joined : ℕ) (hcaller : s.caller k = .joining joined)
      (hge : ¬joined < n) : StepCase s { s.moveCaller k .idle with closeReturned := true }
  /-- A worker blocks. -/
  | wait (i : Fin n) (hopen : s.closed = false) : StepCase s { s with cond := s.cond.wait i }
  | exit (i : Fin n) (hworker : s.worker i = .taking) (hclosed : s.closed = true)
      (hempty : s.taskQueue = []) :
    StepCase s { s with
      cond := s.cond.leave i, worker := update s.worker i .exited }
  | take (i : Fin n) (task : τ) (taskQueue : List τ) (hworker : s.worker i = .taking)
      (hqueue : s.taskQueue = task :: taskQueue) :
    StepCase s { s with
      cond := s.cond.leave i, taskQueue := taskQueue, taken := s.taken ++ [task]
      worker := update s.worker i (.holding task) }
  | execute (i : Fin n) (task : τ) (hworker : s.worker i = .holding task) :
    StepCase s { s with
      executed := s.executed ++ [task], worker := update s.worker i .taking }

theorem take_cases {i : Fin n} (hworker : s.worker i = .taking) :
    ∃ s', s.take i = .ok s' ∧ StepCase s s' := by
  cases hqueue : s.taskQueue with
  | nil =>
    cases hclosed : s.closed with
    | false =>
      refine ⟨_, ?_, .wait i hclosed⟩
      simp [ThreadPool.take, hqueue, hclosed]
    | true =>
      refine ⟨_, ?_, .exit i hworker hclosed hqueue⟩
      simp [ThreadPool.take, hqueue, hclosed]
  | cons task taskQueue =>
    refine ⟨_, ?_, .take i task taskQueue hworker hqueue⟩
    simp [ThreadPool.take, hqueue]

theorem step_cases {a : Action n κ τ} : s.step a = .ok s' → StepCase s s' := by
  cases a with
  | callPut k task =>
    rw [step]
    cases s.caller k with
    | idle =>
      rintro ⟨⟩
      exact .move k _ nofun nofun
    | _ => exact nofun
  | put k =>
    rw [step]
    cases s.caller k with
    | putting task =>
      rintro ⟨⟩
      rw [put]
      split_ifs with hclosed
      · exact .refuse k task
      · exact .push k task (Bool.not_eq_true _ ▸ hclosed)
    | _ => exact nofun
  | notifyOne k wakes =>
    rw [step]
    cases s.caller k with
    | notifying =>
      intro hs
      obtain ⟨-, rfl⟩ := guarded_eq_ok.mp hs
      exact .notifyOne k wakes
    | _ => exact nofun
  | callClose k =>
    rw [step]
    cases s.caller k with
    | idle =>
      rintro ⟨⟩
      exact .move k _ nofun nofun
    | _ => exact nofun
  | close k =>
    rw [step]
    cases s.caller k with
    | closing =>
      rintro ⟨⟩
      rw [close]
      split_ifs
      · exact .move k _ nofun nofun
      · exact .close k
    | _ => exact nofun
  | notifyAll k =>
    rw [step]
    cases hcaller : s.caller k with
    | notifyingAll =>
      rintro ⟨⟩
      exact .notifyAll k hcaller
    | _ => exact nofun
  | join k =>
    rw [step]
    cases hcaller : s.caller k with
    | joining joined =>
      change s.join k joined = _ → _
      rw [join]
      split_ifs with hlt
      · cases hworker : s.worker ⟨joined, hlt⟩ with
        | exited =>
          rintro ⟨⟩
          exact .join k joined hcaller hlt hworker
        | _ => exact nofun
      · rintro ⟨⟩
        exact .closeReturns k joined hcaller hlt
    | _ => exact nofun
  | take i =>
    rw [step]
    cases hworker : s.worker i with
    | taking =>
      intro hs
      obtain ⟨t, ht, hcase⟩ := take_cases hworker
      rw [(attempt_eq_ok.mp hs).2] at ht
      exact Except.ok.inj ht ▸ hcase
    | _ => exact nofun
  | execute i =>
    rw [step]
    cases hworker : s.worker i with
    | holding task =>
      rintro ⟨⟩
      exact .execute i task hworker
    | _ => exact nofun

/-! ## Every task is somewhere -/

/-- What the workers hold. -/
def held (s : ThreadPool n κ τ) : Multiset τ := heldBy Finset.univ s.worker WorkerPlace.holds

/-- Every accepted task is in the queue, with a worker, or has been executed. -/
structure Accounts (s : ThreadPool n κ τ) : Prop where
  order : s.pushed = s.taken ++ s.taskQueue
  taken : (s.taken : Multiset τ) = s.executed + s.held

omit [DecidableEq κ] in
theorem accounts_new : Accounts (new : ThreadPool n κ τ) where
  order := rfl
  taken := by
    have hheld : (new : ThreadPool n κ τ).held = 0 := heldBy_eq_zero fun _ _ ↦ rfl
    rw [hheld]
    rfl

omit [DecidableEq κ] in
theorem held_update {i : Fin n} {p : WorkerPlace τ} :
    heldBy Finset.univ (update s.worker i p) WorkerPlace.holds + (s.worker i).holds =
      s.held + p.holds := heldBy_update (Finset.mem_univ i)

theorem Accounts.step (h : Accounts s) {a : Action n κ τ} (hs : s.step a = .ok s') :
    Accounts s' := by
  cases step_cases hs with
  | push k task hopen =>
    refine ⟨?_, h.taken⟩
    change s.pushed ++ [task] = s.taken ++ (s.taskQueue ++ [task])
    rw [h.order, List.append_assoc]
  | exit i hworker hclosed hempty =>
    refine ⟨h.order, h.taken.trans (congrArg (_ + ·) (Eq.symm ?_))⟩
    exact heldBy_update_of_eq (Finset.mem_univ i) (by rw [hworker]; rfl)
  | take i task taskQueue hworker hqueue =>
    refine ⟨?_, ?_⟩
    · change s.pushed = (s.taken ++ [task]) ++ taskQueue
      rw [h.order, hqueue, List.append_assoc, List.singleton_append]
    · have hheld : heldBy Finset.univ (update s.worker i (.holding task))
          WorkerPlace.holds = s.held + {task} := by
        rw [← add_zero (heldBy _ _ _), ← (by rw [hworker]; rfl : (s.worker i).holds = 0)]
        exact held_update
      change (↑(s.taken ++ [task]) : Multiset τ) = (↑s.executed : Multiset τ) + heldBy _ _ _
      rw [hheld, ← Multiset.coe_add, h.taken, add_assoc]
      rfl
  | execute i task hworker =>
    refine ⟨h.order, ?_⟩
    have hheld : heldBy Finset.univ (update s.worker i .taking) WorkerPlace.holds +
        {task} = s.held := by
      rw [← add_zero s.held, ← (by rw [hworker]; rfl : (s.worker i).holds = {task})]
      exact held_update
    change (s.taken : Multiset τ) = (↑(s.executed ++ [task]) : Multiset τ) + heldBy _ _ _
    rw [h.taken, ← hheld, ← Multiset.coe_add, add_comm (heldBy _ _ _), ← add_assoc]
    rfl
  | _ => exact ⟨h.order, h.taken⟩

/-! ## Workers leave an empty queue -/

/-- A worker has left only after the pool was closed and the queue was empty. Nothing can have been
added since. -/
def LeftEmpty (s : ThreadPool n κ τ) : Prop :=
  ∀ i, s.worker i = .exited → s.closed = true ∧ s.taskQueue = []

omit [DecidableEq κ] in
theorem LeftEmpty.of_update (h : LeftEmpty s) {i j : Fin n} (p : WorkerPlace τ) (hp : p ≠ .exited)
    (hj : update s.worker i p j = .exited) : s.closed = true ∧ s.taskQueue = [] := by
  rcases eq_or_ne j i with rfl | hne
  · rw [update_self] at hj
    exact absurd hj hp
  · rw [update_of_ne hne] at hj
    exact h j hj

theorem LeftEmpty.step (h : LeftEmpty s) {a : Action n κ τ} (hs : s.step a = .ok s') :
    LeftEmpty s' := by
  cases step_cases hs with
  | push k task hopen =>
    intro i hi
    obtain ⟨hclosed, -⟩ := h i hi
    rw [hopen] at hclosed
    cases hclosed
  | close k => exact fun i hi ↦ ⟨rfl, (h i hi).2⟩
  | exit i hworker hclosed hempty => exact fun _ _ ↦ ⟨hclosed, hempty⟩
  | take i task taskQueue hworker hqueue =>
    intro j hj
    obtain ⟨-, hempty⟩ := h.of_update (.holding task) nofun hj
    rw [hqueue] at hempty
    cases hempty
  | execute i task hworker => exact fun j hj ↦ h.of_update .taking nofun hj
  | _ => exact h

/-! ## Closing -/

/-- How far the threads in `close` are. -/
structure Closing (s : ThreadPool n κ τ) : Prop where
  notifiedAll : s.notifiedAll = true → s.closed = true ∧ s.cond.waiting = ∅
  notifyingAll : ∀ k, s.caller k = .notifyingAll → s.closed = true
  joining : ∀ k joined, s.caller k = .joining joined → ∀ i : Fin n, i < joined →
    s.worker i = .exited
  returned : s.closeReturned = true → ∀ i, s.worker i = .exited

omit [DecidableEq κ] in
theorem closing_new : Closing (new : ThreadPool n κ τ) where
  notifiedAll h := by cases h
  notifyingAll _ h := by cases h
  joining _ _ h := by cases h
  returned h := by cases h

section

variable (h : Closing s)
include h

/-- A thread moves to a place that says nothing about `close`, or that is justified. -/
theorem Closing.moveCaller (k : κ) (place : CallerPlace τ)
    (hall : place = .notifyingAll → s.closed = true)
    (hjoin : ∀ joined, place = .joining joined → ∀ i : Fin n, i < joined → s.worker i = .exited) :
    Closing (s.moveCaller k place) where
  notifiedAll := h.notifiedAll
  notifyingAll k' hk' := by
    change update s.caller k place k' = _ at hk'
    rcases eq_or_ne k' k with rfl | hne
    · rw [update_self] at hk'
      exact hall hk'
    · rw [update_of_ne hne] at hk'
      exact h.notifyingAll k' hk'
  joining k' joined hk' := by
    change update s.caller k place k' = _ at hk'
    rcases eq_or_ne k' k with rfl | hne
    · rw [update_self] at hk'
      exact hjoin joined hk'
    · rw [update_of_ne hne] at hk'
      exact h.joining k' joined hk'
  returned := h.returned

omit [DecidableEq κ] in
theorem Closing.setTasks (taskQueue pushed taken executed thrown : List τ) :
    Closing { s with
      taskQueue := taskQueue, pushed := pushed, taken := taken, executed := executed
      thrown := thrown } :=
  ⟨h.notifiedAll, h.notifyingAll, h.joining, h.returned⟩

omit [DecidableEq κ] in
theorem Closing.moveWorker {i : Fin n} (p : WorkerPlace τ)
    (hi : s.worker i ≠ .exited) : Closing { s with worker := update s.worker i p } := by
  have hkeep : ∀ j, s.worker j = .exited → update s.worker i p j = .exited := by
    intro j hj
    have hne : j ≠ i := fun hji ↦ hi (hji ▸ hj)
    rw [update_of_ne hne]
    exact hj
  exact ⟨h.notifiedAll, h.notifyingAll, fun k joined hk j hj ↦ hkeep j (h.joining k joined hk j hj),
    fun hreturned j ↦ hkeep j (h.returned hreturned j)⟩

omit [DecidableEq κ] in
theorem Closing.shrinkWaiting {cond : CondVar (Fin n)}
    (hcond : cond.waiting ⊆ s.cond.waiting) : Closing { s with cond := cond } := by
  refine ⟨fun hall ↦ ?_, h.notifyingAll, h.joining, h.returned⟩
  obtain ⟨hclosed, hempty⟩ := h.notifiedAll hall
  exact ⟨hclosed, Finset.subset_empty.mp (hempty ▸ hcond)⟩

theorem Closing.step {a : Action n κ τ} (hs : s.step a = .ok s') : Closing s' := by
  cases step_cases hs with
  | move k place hall hjoin =>
    exact h.moveCaller k place (fun hp ↦ absurd hp hall) fun joined hp ↦ absurd hp (hjoin joined)
  | refuse k task => exact (h.moveCaller k .idle nofun nofun).setTasks _ _ _ _ _
  | push k task hopen => exact (h.moveCaller k .notifying nofun nofun).setTasks _ _ _ _ _
  | notifyOne k wakes =>
    exact (h.moveCaller k .idle nofun nofun).shrinkWaiting CondVar.waiting_notifyOne_subset
  | close k =>
    have hclosed : Closing { s with closed := true } :=
      ⟨fun hall ↦ ⟨rfl, (h.notifiedAll hall).2⟩, fun _ _ ↦ rfl, h.joining, h.returned⟩
    exact hclosed.moveCaller k .notifyingAll (fun _ ↦ rfl) nofun
  | notifyAll k hcaller =>
    have hmove : Closing (s.moveCaller k (.joining 0)) := by
      refine h.moveCaller k _ nofun fun joined hp i hi ↦ ?_
      cases hp
      exact absurd hi (Nat.not_lt_zero _)
    exact ⟨fun _ ↦ ⟨h.notifyingAll k hcaller, rfl⟩, hmove.notifyingAll, hmove.joining,
      hmove.returned⟩
  | join k joined hcaller hlt hexited =>
    refine h.moveCaller k _ nofun fun joined' hp i hi ↦ ?_
    cases hp
    rcases Nat.lt_succ_iff_lt_or_eq.mp hi with hi | hi
    · exact h.joining k joined hcaller i hi
    · have hij : i = ⟨joined, hlt⟩ := Fin.ext hi
      rw [hij]
      exact hexited
  | closeReturns k joined hcaller hge =>
    have hmove := h.moveCaller k .idle nofun nofun
    exact ⟨hmove.notifiedAll, hmove.notifyingAll, hmove.joining,
      fun _ i ↦ h.joining k joined hcaller i (by omega)⟩
  | wait i hopen =>
    refine ⟨fun hall ↦ ?_, h.notifyingAll, h.joining, h.returned⟩
    -- a worker blocks only while the pool is open
    have hclosed := (h.notifiedAll hall).1
    rw [hopen] at hclosed
    cases hclosed
  | exit i hworker hclosed hempty =>
    have hi : s.worker i ≠ .exited := by simp [hworker]
    exact (h.moveWorker .exited hi).shrinkWaiting CondVar.waiting_leave_subset
  | take i task taskQueue hworker hqueue =>
    have hi : s.worker i ≠ .exited := by simp [hworker]
    exact ((h.moveWorker (.holding task) hi).shrinkWaiting
      CondVar.waiting_leave_subset).setTasks _ _ _ _ _
  | execute i task hworker =>
    have hi : s.worker i ≠ .exited := by simp [hworker]
    exact (h.moveWorker .taking hi).setTasks _ _ _ _ _

end

/-! ## The pool as a whole -/

omit [DecidableEq κ] in
/-- When all workers have left, everything has been executed. -/
theorem executed_perm_pushed (hn : 0 < n) (haccounts : Accounts s) (hleft : LeftEmpty s)
    (hexited : ∀ i, s.worker i = .exited) : s.executed.Perm s.pushed := by
  obtain ⟨-, hempty⟩ := hleft ⟨0, hn⟩ (hexited _)
  have hheld : s.held = 0 := heldBy_eq_zero fun i _ ↦ by rw [hexited i]; rfl
  have htaken := haccounts.taken
  rw [hheld, add_zero] at htaken
  rw [haccounts.order, hempty, List.append_nil]
  exact (Multiset.coe_eq_coe.mp htaken).symm

theorem step_put_of_closed (hclosed : s.closed = true) {k : κ} {task : τ}
    (hcaller : s.caller k = .putting task) :
    s.step (.put k) = .ok { s.moveCaller k .idle with thrown := s.thrown ++ [task] } := by
  simp only [step, hcaller, put, hclosed, if_true]

/-- **Accepted tasks are executed.** A pool with at least one worker has executed any interleaving
of `put` and `close` in any threads with the steps of the workers. No task has been executed twice,
and the tasks were taken in the order in which they were put. A worker has left only when the pool
was closed and the queue empty. After `notify_all` no worker is blocked without a notification. When
all workers have left, or the `close` that has closed the pool has returned, every accepted task has
been executed. Once the pool is closed, `put` throws and enqueues nothing. -/
theorem executes_accepted_tasks (hn : 0 < n) {actions : List (Action n κ τ)}
    (hrun : runAll step new actions = .ok s) :
    s.executed.Subperm s.pushed ∧
    s.pushed = s.taken ++ s.taskQueue ∧
    (∀ i, s.worker i = .exited → s.closed = true ∧ s.taskQueue = []) ∧
    (s.notifiedAll = true → s.cond.waiting = ∅) ∧
    ((∀ i, s.worker i = .exited) → s.executed.Perm s.pushed) ∧
    (s.closeReturned = true → s.executed.Perm s.pushed) ∧
    (s.closed = true → ∀ k task, s.caller k = .putting task →
      s.step (.put k) = .ok { s.moveCaller k .idle with thrown := s.thrown ++ [task] }) := by
  have haccounts : Accounts s := runAll_invariant (fun _ _ _ h hs ↦ h.step hs) accounts_new hrun
  have hleft : LeftEmpty s :=
    runAll_invariant (fun _ _ _ h hs ↦ h.step hs) (fun _ h ↦ by cases h) hrun
  have hclosing : Closing s := runAll_invariant (fun _ _ _ h hs ↦ h.step hs) closing_new hrun
  have hall := executed_perm_pushed hn haccounts hleft
  refine ⟨?_, haccounts.order, hleft, fun h ↦ (hclosing.notifiedAll h).2, hall,
    fun h ↦ hall (hclosing.returned h), fun hclosed k task hcaller ↦
      step_put_of_closed hclosed hcaller⟩
  rw [← Multiset.coe_le, haccounts.order, ← Multiset.coe_add, haccounts.taken, add_assoc]
  exact Multiset.le_add_right _ _

/-- One worker waits when a task is put. Another thread closes the pool before the notification, so
the worker is woken by `notify_all`. It executes the task and leaves, and `close` returns. -/
theorem executes_accepted_tasks_one :
    ∃ s : ThreadPool 1 Bool ℕ, runAll step new
        [.take 0, .callPut true 7, .put true, .callClose false, .close false, .notifyAll false,
          .notifyOne true none, .take 0, .execute 0, .take 0, .join false, .join false] = .ok s ∧
      s.closeReturned = true ∧ s.pushed = [7] ∧ s.executed.Perm [7] := by
  refine exists_ok_of_map (fun s ↦ (s.closeReturned, s.pushed)) (true, [7]) (by decide +kernel)
    fun s hs hobserved ↦ ?_
  obtain ⟨hreturned, hpushed⟩ := Prod.mk.inj hobserved
  obtain ⟨-, -, -, -, -, hperm, -⟩ := executes_accepted_tasks (by decide) hs
  exact ⟨hreturned, hpushed, hpushed ▸ hperm hreturned⟩

end ThreadPool

end Zfish

end Fishnet
