import Fishnet.Library.Run
import Fishnet.Library.Threads

/-!
# The thread pool of `hlib/thread_pool.h`

The pool starts its core threads when it is constructed. `Run` checks the flags, starts a cache
thread if no thread is waiting and there are fewer than `max_thread_num`, and only then takes the
mutex and pushes the task. A worker waits for a task or a flag. A cache worker waits for a limited
time and terminates when that is over. `Shutdown` stores one of the two flags, calls `notify_all`
and joins the threads in the list.

## Where the threads are

The flags are atomic and are stored without the mutex. So the critical section of a worker is not
one action. It is cut where it matters: between the test of `wakeup_pred` and what follows from it.
At such a place the worker holds the mutex. After `proceeding` the flags are read once more. They
are never reset, so that what they were at the last of these reads decides.

The callers need the mutex for one action at a time. `Run` reads three flags at first. It goes on
exactly if all of them allowed it at the time of the second read.

The loop of `Shutdown` goes through the list of threads without the mutex. In the model it looks at
the list as it is at each step. Whether a thread has been joined before makes no difference to the
loop, since a thread that has been joined has terminated.

## What is left out

`PopNoRunTasks`, the functions that only read, and `total_task_num_`, which no other function reads.

## History

`accepted` lists the tasks that `Run` has pushed, for which it returns a future, and `rejected`
those for which it returns a null pointer. `executed` lists the tasks executed, and `shutdowns` the
arguments of the calls of `Shutdown`. No action depends on them.

## Main results

* `ThreadPool.shutdown_wakes_iff`: when the `notify_all` of a `Shutdown` reaches every core worker.
-/

namespace Fishnet

open Function

namespace Hlib

structure PoolConfig where
  coreThreadNum : ℤ
  maxThreadNum : ℤ
  maxTaskNum : ℤ
  /-- In milliseconds. -/
  timeout : ℤ
  deriving DecidableEq, Repr

/-- `IsAvaliableConfig`. -/
def PoolConfig.isAvaliableConfig (config : PoolConfig) : Bool :=
  config.coreThreadNum > 0 && config.maxTaskNum > 0 && config.maxTaskNum > config.coreThreadNum &&
    config.timeout ≥ 0

inductive ThreadState where
  | init
  | waiting
  | running
  | stop
  deriving DecidableEq, Repr

inductive ThreadFlag where
  | init
  | core
  | cache
  deriving DecidableEq, Repr

/-- Where a worker is. -/
inductive WorkerPlace (τ : Type) where
  /-- Not started. -/
  | absent
  /-- At the beginning of the loop, before the mutex. -/
  | locking
  /-- Before the test of `wakeup_pred`. -/
  | testing
  /-- The test has failed. -/
  | blocking
  /-- In the wait, without the mutex. -/
  | blocked
  /-- The time is over. -/
  | expired
  /-- After the wait. -/
  | proceeding (isTimeout : Bool)
  | running (task : τ)
  | terminated
  deriving DecidableEq, Repr

namespace WorkerPlace

variable {τ : Type}

/-- The worker holds the mutex. -/
def isLocked : WorkerPlace τ → Bool
  | testing | blocking | expired | proceeding _ => true
  | _ => false

/-- The task that the worker has taken. -/
def holds : WorkerPlace τ → Multiset τ
  | running task => {task}
  | _ => 0

end WorkerPlace

/-- `ThreadWrapper`, together with where the thread is. -/
structure ThreadWrapper (τ : Type) where
  flag : ThreadFlag
  state : ThreadState
  place : WorkerPlace τ
  deriving DecidableEq, Repr

/-- Where a thread is that uses the pool. -/
inductive CallerPlace (τ : Type) where
  | idle
  /-- In `Run`, after the flags. -/
  | checked (task : τ)
  /-- No thread was waiting. -/
  | counting (task : τ)
  /-- There were fewer threads than allowed. -/
  | starting (task : τ)
  /-- The thread with this number has been started. -/
  | appending (task : τ) (id : ℕ)
  | pushing (task : τ)
  | notifying
  /-- In `Shutdown`, before the flag. -/
  | storing (isNow : Bool)
  | notifyingAll
  /-- Before `is_available_` is cleared. -/
  | withdrawing
  /-- At a position in the list of threads. -/
  | joining (position : ℕ)
  deriving DecidableEq, Repr

/-- The task of a call of `Run` between the check and the push. -/
@[simp] def CallerPlace.pending {τ : Type} : CallerPlace τ → Option τ
  | checked task | counting task | starting task | appending task _ | pushing task => some task
  | _ => none

/-- The pool, used by the threads in `κ`. The workers are numbered. -/
structure ThreadPool (κ τ : Type) where
  /-- `config_`. -/
  config : PoolConfig
  /-- `is_available_`. -/
  isAvailable : Bool
  /-- `is_shutdown_`. -/
  isShutdown : Bool
  /-- `is_shutdown_now_`. -/
  isShutdownNow : Bool
  /-- `waiting_thread_num_`. -/
  waitingThreadNum : ℤ
  /-- `next_thread_id_`. -/
  nextThreadId : ℕ
  /-- `threads_`. -/
  threads : List ℕ
  /-- `tasks_`. -/
  tasks : List τ
  /-- The worker that holds `mutex_`. -/
  mutex : Option ℕ
  /-- `cond_`. -/
  cond : CondVar ℕ
  worker : ℕ → ThreadWrapper τ
  caller : κ → CallerPlace τ
  accepted : List τ
  rejected : List τ
  executed : List τ
  shutdowns : List Bool

namespace ThreadPool

variable {κ τ : Type}

/-- The number of core threads that `Start` has started. -/
def coreThreads (config : PoolConfig) : ℕ :=
  if config.isAvaliableConfig then config.coreThreadNum.toNat else 0

/-- A pool as constructed. -/
def started (config : PoolConfig) : ThreadPool κ τ where
  config := config
  isAvailable := config.isAvaliableConfig
  isShutdown := false
  isShutdownNow := false
  waitingThreadNum := 0
  nextThreadId := coreThreads config
  threads := List.range (coreThreads config)
  tasks := []
  mutex := none
  cond := .new
  worker i :=
    if i < coreThreads config then ⟨.core, .init, .locking⟩ else ⟨.init, .init, .absent⟩
  caller _ := .idle
  accepted := []
  rejected := []
  executed := []
  shutdowns := []

/-! ## The workers -/

section Worker

variable (s : ThreadPool κ τ)

/-- `wakeup_pred`. -/
def wakeupPred (i : ℕ) : Bool :=
  s.isShutdown || s.isShutdownNow || !s.tasks.isEmpty || (s.worker i).state == .stop

def moveWorker (i : ℕ) (place : WorkerPlace τ) : ThreadPool κ τ :=
  { s with worker := update s.worker i { s.worker i with place := place } }

/-- From the mutex to the wait. -/
def enter (i : ℕ) : ThreadPool κ τ :=
  if (s.worker i).state = .stop then s.moveWorker i .terminated
  else
    { s with
      mutex := some i, waitingThreadNum := s.waitingThreadNum + 1
      worker := update s.worker i ⟨(s.worker i).flag, .waiting, .testing⟩ }

/-- From the end of the wait to the end of the critical section. -/
def proceed (i : ℕ) (isTimeout : Bool) : Checked (ThreadPool κ τ) :=
  let state := if isTimeout then .stop else (s.worker i).state
  if state = .stop ∨ (s.isShutdown && s.tasks.isEmpty) ∨ s.isShutdownNow then
    .ok { s with
      mutex := none, waitingThreadNum := s.waitingThreadNum - 1
      worker := update s.worker i ⟨(s.worker i).flag, state, .terminated⟩ }
  else
    match s.tasks with
    | [] => .error .badAccess
    | task :: tasks =>
      .ok { s with
        mutex := none, waitingThreadNum := s.waitingThreadNum - 1, tasks := tasks
        worker := update s.worker i ⟨(s.worker i).flag, .running, .running task⟩ }

/-- The next step of a worker. -/
def work (i : ℕ) : Except Halt (ThreadPool κ τ) :=
  match (s.worker i).place with
  | .locking => guarded (s.mutex = none) (s.enter i)
  | .testing => .ok (s.moveWorker i (if s.wakeupPred i then .proceeding false else .blocking))
  | .blocking => .ok { s.moveWorker i .blocked with mutex := none, cond := s.cond.wait i }
  | .blocked =>
    guarded (s.mutex = none)
      { s.moveWorker i .testing with mutex := some i, cond := s.cond.leave i }
  | .expired => .ok (s.moveWorker i (.proceeding !s.wakeupPred i))
  | .proceeding isTimeout => attempt True (s.proceed i isTimeout)
  | .running task => .ok { s.moveWorker i .locking with executed := s.executed ++ [task] }
  | .absent | .terminated => .error .disabled

/-- The wait of a cache worker ends because the time is over. -/
def expire (i : ℕ) : Except Halt (ThreadPool κ τ) :=
  match (s.worker i).place with
  | .blocked =>
    guarded ((s.worker i).flag ≠ .core ∧ s.mutex = none)
      { s.moveWorker i .expired with mutex := some i, cond := s.cond.leave i }
  | _ => .error .disabled

variable {s} {s' : ThreadPool κ τ}

/-- What a worker can do. -/
inductive WorkerCase (s : ThreadPool κ τ) (i : ℕ) : ThreadPool κ τ → Prop
  | stop (hplace : (s.worker i).place = .locking) (hmutex : s.mutex = none) :
    WorkerCase s i (s.moveWorker i .terminated)
  | lock (hplace : (s.worker i).place = .locking) (hmutex : s.mutex = none) :
    WorkerCase s i { s with
      mutex := some i, waitingThreadNum := s.waitingThreadNum + 1
      worker := update s.worker i ⟨(s.worker i).flag, .waiting, .testing⟩ }
  | testTrue (hplace : (s.worker i).place = .testing) (hpred : s.wakeupPred i = true) :
    WorkerCase s i (s.moveWorker i (.proceeding false))
  | testFalse (hplace : (s.worker i).place = .testing) (hpred : s.wakeupPred i = false) :
    WorkerCase s i (s.moveWorker i .blocking)
  | block (hplace : (s.worker i).place = .blocking) :
    WorkerCase s i { s.moveWorker i .blocked with mutex := none, cond := s.cond.wait i }
  | wake (place : WorkerPlace τ) (hplace : (s.worker i).place = .blocked) (hmutex : s.mutex = none)
      (hnew : place = .testing ∨ place = .expired) :
    WorkerCase s i { s.moveWorker i place with mutex := some i, cond := s.cond.leave i }
  | testExpired (hplace : (s.worker i).place = .expired) :
    WorkerCase s i (s.moveWorker i (.proceeding !s.wakeupPred i))
  | exit (isTimeout : Bool) (state : ThreadState)
      (hplace : (s.worker i).place = .proceeding isTimeout) :
    WorkerCase s i { s with
      mutex := none, waitingThreadNum := s.waitingThreadNum - 1
      worker := update s.worker i ⟨(s.worker i).flag, state, .terminated⟩ }
  | take (isTimeout : Bool) (task : τ) (tasks : List τ)
      (hplace : (s.worker i).place = .proceeding isTimeout) (htasks : s.tasks = task :: tasks) :
    WorkerCase s i { s with
      mutex := none, waitingThreadNum := s.waitingThreadNum - 1, tasks := tasks
      worker := update s.worker i ⟨(s.worker i).flag, .running, .running task⟩ }
  | execute (task : τ) (hplace : (s.worker i).place = .running task) :
    WorkerCase s i { s.moveWorker i .locking with executed := s.executed ++ [task] }

theorem proceed_cases {i : ℕ} {isTimeout : Bool}
    (hplace : (s.worker i).place = .proceeding isTimeout) (hs : s.proceed i isTimeout = .ok s') :
    WorkerCase s i s' := by
  simp only [proceed] at hs
  by_cases hexit : (if isTimeout then .stop else (s.worker i).state) = .stop ∨
      (s.isShutdown && s.tasks.isEmpty) ∨ s.isShutdownNow
  · rw [if_pos hexit] at hs
    cases hs
    exact .exit isTimeout _ hplace
  · rw [if_neg hexit] at hs
    cases htasks : s.tasks with
    | nil => simp [htasks] at hs
    | cons task tasks =>
      simp only [htasks, Except.ok.injEq] at hs
      exact hs ▸ .take isTimeout task tasks hplace htasks

theorem work_cases {i : ℕ} : s.work i = .ok s' → WorkerCase s i s' := by
  rw [work]
  cases hplace : (s.worker i).place with
  | locking =>
    intro hs
    obtain ⟨hmutex, rfl⟩ := guarded_eq_ok.mp hs
    rw [enter]
    split_ifs with hstate
    · exact .stop hplace hmutex
    · exact .lock hplace hmutex
  | testing =>
    rintro ⟨⟩
    split_ifs with hpred
    · exact .testTrue hplace hpred
    · exact .testFalse hplace (Bool.not_eq_true _ ▸ hpred)
  | blocking =>
    rintro ⟨⟩
    exact .block hplace
  | blocked =>
    intro hs
    obtain ⟨hmutex, rfl⟩ := guarded_eq_ok.mp hs
    exact .wake .testing hplace hmutex (Or.inl rfl)
  | expired =>
    rintro ⟨⟩
    exact .testExpired hplace
  | proceeding isTimeout => exact fun hs ↦ proceed_cases hplace (attempt_eq_ok.mp hs).2
  | running task =>
    rintro ⟨⟩
    exact .execute task hplace
  | absent | terminated => exact nofun

theorem expire_cases {i : ℕ} : s.expire i = .ok s' → WorkerCase s i s' := by
  rw [expire]
  cases hplace : (s.worker i).place with
  | blocked =>
    intro hs
    obtain ⟨⟨-, hmutex⟩, rfl⟩ := guarded_eq_ok.mp hs
    exact .wake .expired hplace hmutex (Or.inr rfl)
  | _ => exact nofun

/-! What a worker leaves alone, and what it can do to itself. -/

variable {i j : ℕ}

/-- What only the callers change. -/
structure SameCallers (s s' : ThreadPool κ τ) : Prop where
  caller : s'.caller = s.caller
  threads : s'.threads = s.threads
  nextThreadId : s'.nextThreadId = s.nextThreadId
  isAvailable : s'.isAvailable = s.isAvailable
  isShutdown : s'.isShutdown = s.isShutdown
  isShutdownNow : s'.isShutdownNow = s.isShutdownNow
  accepted : s'.accepted = s.accepted
  shutdowns : s'.shutdowns = s.shutdowns

variable (h : WorkerCase s i s')
include h

theorem WorkerCase.sameCallers : SameCallers s s' := by
  cases h <;> exact ⟨rfl, rfl, rfl, rfl, rfl, rfl, rfl, rfl⟩

theorem WorkerCase.worker_of_ne (hj : j ≠ i) : s'.worker j = s.worker j := by
  cases h <;> exact update_of_ne hj _ _

theorem WorkerCase.flag_eq (j : ℕ) : (s'.worker j).flag = (s.worker j).flag := by
  by_cases hj : j = i
  · subst hj
    cases h <;> simp [moveWorker]
  · rw [h.worker_of_ne hj]

theorem WorkerCase.place_ne_absent : (s.worker i).place ≠ .absent := by
  intro habsent
  cases h <;> exact absurd (habsent.symm.trans ‹(s.worker i).place = _›) (by simp)

/-- A worker comes to block only if its test has failed. -/
theorem WorkerCase.wakeupPred_of_blocking (hblocking : (s'.worker i).place = .blocking) :
    s.wakeupPred i = false := by
  cases h with
  | testFalse hplace hpred => exact hpred
  | wake place hplace hmutex hnew => rcases hnew with rfl | rfl <;> simp [moveWorker] at hblocking
  | _ => simp [moveWorker] at hblocking

theorem WorkerCase.mem_waiting (hj : j ∈ s'.cond.waiting) :
    j ∈ s.cond.waiting ∨ j = i ∧ (s.worker i).place = .blocking := by
  cases h with
  | block hplace =>
    rcases CondVar.mem_waiting_wait.mp hj with rfl | hj
    · exact Or.inr ⟨rfl, hplace⟩
    · exact Or.inl hj
  | wake place hplace hmutex hnew => exact Or.inl (CondVar.waiting_leave_subset hj)
  | _ => exact Or.inl hj

end Worker

/-! ## The callers -/

variable [DecidableEq κ] (s : ThreadPool κ τ)

def moveCaller (k : κ) (place : CallerPlace τ) : ThreadPool κ τ :=
  { s with caller := update s.caller k place }

theorem caller_moveCaller_self (k : κ) (place : CallerPlace τ) :
    (s.moveCaller k place).caller k = place := update_self _ _ _

theorem caller_moveCaller_of_ne {j k : κ} (hjk : j ≠ k) (place : CallerPlace τ) :
    (s.moveCaller k place).caller j = s.caller j := update_of_ne hjk _ _

/-- `Run` up to the check of the flags. -/
def run (k : κ) (task : τ) : ThreadPool κ τ :=
  if !s.isAvailable || s.isShutdown || s.isShutdownNow then
    { s with rejected := s.rejected ++ [task] }
  else s.moveCaller k (.checked task)

/-- `AddThread` up to the list. -/
def addThread (k : κ) (task : τ) (flag : ThreadFlag) : ThreadPool κ τ :=
  { s.moveCaller k (.appending task s.nextThreadId) with
    nextThreadId := s.nextThreadId + 1
    worker := update s.worker s.nextThreadId ⟨flag, .init, .locking⟩ }

/-- `Shutdown` up to the check of `is_available_`. -/
def shutdown (k : κ) (isNow : Bool) : ThreadPool κ τ :=
  { s.moveCaller k (if s.isAvailable then .storing isNow else .joining 0) with
    shutdowns := s.shutdowns ++ [isNow] }

/-- The flag is stored. -/
def storeFlag (k : κ) (isNow : Bool) : ThreadPool κ τ :=
  if isNow then { s.moveCaller k .notifyingAll with isShutdownNow := true }
  else { s.moveCaller k .notifyingAll with isShutdown := true }

/-- The loop of `Shutdown` joins the next thread, or ends. -/
def join (k : κ) (position : ℕ) : Except Halt (ThreadPool κ τ) :=
  match s.threads[position]? with
  | some id =>
    match (s.worker id).place with
    | .terminated => .ok (s.moveCaller k (.joining (position + 1)))
    | _ => .error .disabled
  | none => .ok (s.moveCaller k .idle)

/-- The next step of a caller, except for `notify_one`. -/
def advance (k : κ) : Except Halt (ThreadPool κ τ) :=
  match s.caller k with
  | .checked task =>
    .ok (s.moveCaller k (if s.waitingThreadNum = 0 then .counting task else .pushing task))
  | .counting task =>
    guarded (s.mutex = none) (s.moveCaller k
      (if (s.threads.length : ℤ) < s.config.maxThreadNum then .starting task else .pushing task))
  | .starting task => .ok (s.addThread k task .cache)
  | .appending task id =>
    guarded (s.mutex = none) { s.moveCaller k (.pushing task) with threads := s.threads ++ [id] }
  | .pushing task =>
    guarded (s.mutex = none) { s.moveCaller k .notifying with
      tasks := s.tasks ++ [task], accepted := s.accepted ++ [task] }
  | .storing isNow => .ok (s.storeFlag k isNow)
  | .notifyingAll => .ok { s.moveCaller k .withdrawing with cond := s.cond.notifyAll }
  | .withdrawing => .ok { s.moveCaller k (.joining 0) with isAvailable := false }
  | .joining position => s.join k position
  | .idle | .notifying => .error .disabled

/-! ## The actions -/

inductive Action (κ τ : Type) where
  /-- A thread calls `Run`. -/
  | run (k : κ) (task : τ)
  /-- A thread calls `Shutdown` or `ShutdownNow`. -/
  | shutdown (k : κ) (isNow : Bool)
  | advance (k : κ)
  /-- `Run` calls `notify_one` and returns. -/
  | notifyOne (k : κ) (wakes : Option ℕ)
  | work (i : ℕ)
  | expire (i : ℕ)
  deriving DecidableEq, Repr

def step : Action κ τ → Except Halt (ThreadPool κ τ)
  | .run k task =>
    match s.caller k with
    | .idle => .ok (s.run k task)
    | _ => .error .disabled
  | .shutdown k isNow =>
    match s.caller k with
    | .idle => .ok (s.shutdown k isNow)
    | _ => .error .disabled
  | .advance k => s.advance k
  | .notifyOne k wakes =>
    match s.caller k with
    | .notifying =>
      guarded (s.cond.CanNotify wakes)
        { s.moveCaller k .idle with cond := s.cond.notifyOne wakes }
    | _ => .error .disabled
  | .work i => s.work i
  | .expire i => s.expire i

variable {s} {s' : ThreadPool κ τ}

/-- What a caller can do. -/
inductive CallerCase (s : ThreadPool κ τ) (k : κ) : ThreadPool κ τ → Prop
  | reject (task : τ) (hcaller : s.caller k = .idle) :
    CallerCase s k { s with rejected := s.rejected ++ [task] }
  | check (task : τ) (hcaller : s.caller k = .idle) (havailable : s.isAvailable = true)
      (hshutdown : s.isShutdown = false) (hnow : s.isShutdownNow = false) :
    CallerCase s k (s.moveCaller k (.checked task))
  /-- `Run` looks whether a thread is waiting. -/
  | load (task : τ) (place : CallerPlace τ) (hcaller : s.caller k = .checked task)
      (hplace : place = .counting task ∨ place = .pushing task) :
    CallerCase s k (s.moveCaller k place)
  /-- `Run` looks how many threads there are. -/
  | count (task : τ) (place : CallerPlace τ) (hcaller : s.caller k = .counting task)
      (hplace : place = .starting task ∨ place = .pushing task) :
    CallerCase s k (s.moveCaller k place)
  | addThread (task : τ) (hcaller : s.caller k = .starting task) :
    CallerCase s k (s.addThread k task .cache)
  | appendThread (task : τ) (id : ℕ) (hcaller : s.caller k = .appending task id) :
    CallerCase s k { s.moveCaller k (.pushing task) with threads := s.threads ++ [id] }
  | push (task : τ) (hcaller : s.caller k = .pushing task) (hmutex : s.mutex = none) :
    CallerCase s k { s.moveCaller k .notifying with
      tasks := s.tasks ++ [task], accepted := s.accepted ++ [task] }
  | notifyOne (wakes : Option ℕ) (hcaller : s.caller k = .notifying) :
    CallerCase s k { s.moveCaller k .idle with cond := s.cond.notifyOne wakes }
  | shutdown (isNow : Bool) (hcaller : s.caller k = .idle) :
    CallerCase s k (s.shutdown k isNow)
  | storeFlag (isNow : Bool) (hcaller : s.caller k = .storing isNow) :
    CallerCase s k (s.storeFlag k isNow)
  | notifyAll (hcaller : s.caller k = .notifyingAll) :
    CallerCase s k { s.moveCaller k .withdrawing with cond := s.cond.notifyAll }
  | withdraw (hcaller : s.caller k = .withdrawing) :
    CallerCase s k { s.moveCaller k (.joining 0) with isAvailable := false }
  | join (position id : ℕ) (hcaller : s.caller k = .joining position)
      (hthread : s.threads[position]? = some id) (hplace : (s.worker id).place = .terminated) :
    CallerCase s k (s.moveCaller k (.joining (position + 1)))
  | shutdownReturns (position : ℕ) (hcaller : s.caller k = .joining position)
      (hthread : s.threads[position]? = none) : CallerCase s k (s.moveCaller k .idle)

theorem join_cases {k : κ} {position : ℕ} (hcaller : s.caller k = .joining position) :
    s.join k position = .ok s' → CallerCase s k s' := by
  rw [join]
  cases hthread : s.threads[position]? with
  | none =>
    rintro ⟨⟩
    exact .shutdownReturns position hcaller hthread
  | some id =>
    dsimp only
    cases hplace : (s.worker id).place with
    | terminated =>
      rintro ⟨⟩
      exact .join position id hcaller hthread hplace
    | _ => exact nofun

theorem advance_cases {k : κ} : s.advance k = .ok s' → CallerCase s k s' := by
  rw [advance]
  cases hcaller : s.caller k with
  | checked task =>
    rintro ⟨⟩
    refine .load task _ hcaller ?_
    split_ifs
    · exact Or.inl rfl
    · exact Or.inr rfl
  | counting task =>
    intro hs
    obtain ⟨-, rfl⟩ := guarded_eq_ok.mp hs
    refine .count task _ hcaller ?_
    split_ifs
    · exact Or.inl rfl
    · exact Or.inr rfl
  | starting task =>
    rintro ⟨⟩
    exact .addThread task hcaller
  | appending task id =>
    intro hs
    obtain ⟨-, rfl⟩ := guarded_eq_ok.mp hs
    exact .appendThread task id hcaller
  | pushing task =>
    intro hs
    obtain ⟨hmutex, rfl⟩ := guarded_eq_ok.mp hs
    exact .push task hcaller hmutex
  | storing isNow =>
    rintro ⟨⟩
    exact .storeFlag isNow hcaller
  | notifyingAll =>
    rintro ⟨⟩
    exact .notifyAll hcaller
  | withdrawing =>
    rintro ⟨⟩
    exact .withdraw hcaller
  | joining position => exact join_cases hcaller
  | idle | notifying => exact nofun

theorem run_cases {k : κ} {task : τ} (hcaller : s.caller k = .idle) :
    CallerCase s k (s.run k task) := by
  rw [run]
  split_ifs with hclosed
  · exact .reject task hcaller
  · simp only [Bool.or_eq_true, Bool.not_eq_true', not_or, Bool.not_eq_true,
      Bool.not_eq_false] at hclosed
    exact .check task hcaller hclosed.1.1 hclosed.1.2 hclosed.2

/-- What an action can do. -/
inductive StepCase (s s' : ThreadPool κ τ) : Prop
  | caller (k : κ) (h : CallerCase s k s')
  | worker (i : ℕ) (h : WorkerCase s i s')

theorem step_eq_ok {a : Action κ τ} : s.step a = .ok s' →
    (∃ k, CallerCase s k s' ∧
      (s.advance k = .ok s' ∨ s.caller k = .idle ∨ s.caller k = .notifying)) ∨
    ∃ i, s.work i = .ok s' ∨ s.expire i = .ok s' := by
  cases a with
  | run k task =>
    rw [step]
    cases hcaller : s.caller k with
    | idle =>
      rintro ⟨⟩
      exact Or.inl ⟨k, run_cases hcaller, Or.inr (Or.inl hcaller)⟩
    | _ => exact nofun
  | shutdown k isNow =>
    rw [step]
    cases hcaller : s.caller k with
    | idle =>
      rintro ⟨⟩
      exact Or.inl ⟨k, .shutdown isNow hcaller, Or.inr (Or.inl hcaller)⟩
    | _ => exact nofun
  | advance k => exact fun hs ↦ Or.inl ⟨k, advance_cases hs, Or.inl hs⟩
  | notifyOne k wakes =>
    rw [step]
    cases hcaller : s.caller k with
    | notifying =>
      intro hs
      obtain ⟨-, rfl⟩ := guarded_eq_ok.mp hs
      exact Or.inl ⟨k, .notifyOne wakes hcaller, Or.inr (Or.inr hcaller)⟩
    | _ => exact nofun
  | work i => exact fun hs ↦ Or.inr ⟨i, Or.inl hs⟩
  | expire i => exact fun hs ↦ Or.inr ⟨i, Or.inr hs⟩

theorem step_cases {a : Action κ τ} (hs : s.step a = .ok s') : StepCase s s' := by
  rcases step_eq_ok hs with ⟨k, hk, -⟩ | ⟨i, hi⟩
  · exact .caller k hk
  · exact .worker i (hi.elim work_cases expire_cases)

/-- The only thing that callers do to the workers is to start one. -/
theorem CallerCase.worker_eq {k : κ} (h : CallerCase s k s') :
    (s'.worker = s.worker ∧ s'.nextThreadId = s.nextThreadId) ∨
      (s'.worker = update s.worker s.nextThreadId ⟨.cache, .init, .locking⟩ ∧
        s'.nextThreadId = s.nextThreadId + 1) := by
  cases h with
  | addThread task hcaller => exact Or.inr ⟨rfl, rfl⟩
  | storeFlag isNow hcaller => cases isNow <;> exact Or.inl ⟨rfl, rfl⟩
  | _ => exact Or.inl ⟨rfl, rfl⟩

theorem CallerCase.waiting_subset {k : κ} (h : CallerCase s k s') :
    s'.cond.waiting ⊆ s.cond.waiting := by
  cases h with
  | notifyOne wakes hcaller => exact CondVar.waiting_notifyOne_subset
  | notifyAll hcaller => exact Finset.empty_subset _
  | storeFlag isNow hcaller => cases isNow <;> exact Finset.Subset.refl _
  | _ => exact Finset.Subset.refl _

theorem CallerCase.caller_of_ne {j k : κ} (h : CallerCase s k s') (hj : j ≠ k) :
    s'.caller j = s.caller j := by
  cases h with
  | reject task hcaller => rfl
  | storeFlag isNow hcaller => cases isNow <;> exact update_of_ne hj _ _
  | _ => exact update_of_ne hj _ _

/-- The numbers from `next_thread_id_` on have not been given out. -/
def Fresh (s : ThreadPool κ τ) : Prop := ∀ i, s.nextThreadId ≤ i → (s.worker i).place = .absent

omit [DecidableEq κ] in
theorem fresh_started (config : PoolConfig) : (started config : ThreadPool κ τ).Fresh := by
  intro i hi
  have hi' : ¬i < coreThreads config := not_lt.mpr hi
  simp [started, hi']

theorem Fresh.step {a : Action κ τ} (h : s.Fresh) (hs : s.step a = .ok s') : s'.Fresh := by
  intro j hj
  cases step_cases hs with
  | caller k hcase =>
    rcases hcase.worker_eq with ⟨hworker, hnext⟩ | ⟨hworker, hnext⟩
    · rw [hnext] at hj
      rw [hworker]
      exact h j hj
    · rw [hnext] at hj
      rw [hworker, update_of_ne (by omega)]
      exact h j (by omega)
  | worker i hcase =>
    rw [hcase.sameCallers.nextThreadId] at hj
    have hne : j ≠ i := by
      rintro rfl
      exact hcase.place_ne_absent (h j hj)
    rw [hcase.worker_of_ne hne]
    exact h j hj

/-! ## The flags -/

omit [DecidableEq κ] in
/-- A shutdown flag is set. -/
def isFlagged (s : ThreadPool κ τ) : Bool := s.isShutdown || s.isShutdownNow

theorem isFlagged_storeFlag (k : κ) (isNow : Bool) : (s.storeFlag k isNow).isFlagged = true := by
  cases isNow <;> simp [storeFlag, isFlagged]

theorem CallerCase.isFlagged {k : κ} (h : CallerCase s k s') (hs : s.isFlagged = true) :
    s'.isFlagged = true := by
  cases h with
  | storeFlag isNow hcaller => exact isFlagged_storeFlag k isNow
  | _ => exact hs

theorem isFlagged_step {a : Action κ τ} (hstep : s.step a = .ok s') (hs : s.isFlagged = true) :
    s'.isFlagged = true := by
  cases step_cases hstep with
  | caller k h => exact h.isFlagged hs
  | worker i h => rwa [isFlagged, h.sameCallers.isShutdown, h.sameCallers.isShutdownNow]

/-- When a `Shutdown` calls `notify_all`, a flag is set. -/
def FlagStored (s : ThreadPool κ τ) : Prop :=
  ∀ k, s.caller k = .notifyingAll → s.isFlagged = true

theorem FlagStored.step {a : Action κ τ} (h : s.FlagStored) (hs : s.step a = .ok s') :
    s'.FlagStored := by
  intro j hj
  cases step_cases hs with
  | caller k hcase =>
    by_cases hjk : j = k
    · subst hjk
      cases hcase with
      | reject task hcaller => exact h j hj
      | storeFlag isNow hcaller => exact isFlagged_storeFlag j isNow
      | load task place hcaller hplace => rcases hplace with rfl | rfl <;> simp [moveCaller] at hj
      | count task place hcaller hplace => rcases hplace with rfl | rfl <;> simp [moveCaller] at hj
      | shutdown isNow hcaller =>
        cases havailable : s.isAvailable <;> simp [shutdown, moveCaller, havailable] at hj
      | _ => simp [addThread, moveCaller] at hj
    · rw [hcase.caller_of_ne hjk] at hj
      exact hcase.isFlagged (h j hj)
  | worker i hcase =>
    rw [hcase.sameCallers.caller] at hj
    exact isFlagged_step hs (h j hj)

/-! ## Core workers that sleep -/

/-- A core worker is blocked without a notification although a flag is set. -/
def Asleep (s : ThreadPool κ τ) (i : ℕ) : Prop :=
  (s.worker i).flag = .core ∧ i ∈ s.cond.waiting ∧ s.isFlagged = true

/-- A flag is set, and no core worker is blocked, or will block. -/
structure Awake (s : ThreadPool κ τ) : Prop where
  flagged : s.isFlagged = true
  core : ∀ i, (s.worker i).flag = .core →
    (s.worker i).place ≠ .blocking ∧ i ∉ s.cond.waiting

omit [DecidableEq κ] in
theorem wakeupPred_of_isFlagged (h : s.isFlagged = true) (i : ℕ) : s.wakeupPred i = true := by
  rw [isFlagged] at h
  rw [wakeupPred, h, Bool.true_or, Bool.true_or]

theorem Awake.step {a : Action κ τ} (h : s.Awake) (hs : s.step a = .ok s') : s'.Awake := by
  refine ⟨isFlagged_step hs h.flagged, fun j hj ↦ ?_⟩
  cases step_cases hs with
  | caller k hcase =>
    rcases hcase.worker_eq with ⟨heq, -⟩ | ⟨heq, -⟩
    · rw [heq] at hj ⊢
      exact ⟨(h.core j hj).1, fun hmem ↦ (h.core j hj).2 (hcase.waiting_subset hmem)⟩
    · -- the thread started is not a core thread
      have hne : j ≠ s.nextThreadId := by
        rintro rfl
        rw [heq, update_self] at hj
        cases hj
      rw [heq, update_of_ne hne] at hj ⊢
      exact ⟨(h.core j hj).1, fun hmem ↦ (h.core j hj).2 (hcase.waiting_subset hmem)⟩
  | worker i hcase =>
    rw [hcase.flag_eq j] at hj
    obtain ⟨hplace, hwaiting⟩ := h.core j hj
    refine ⟨fun hblocking ↦ ?_, fun hmem ↦ ?_⟩
    · by_cases hji : j = i
      · subst hji
        have hpred : s.wakeupPred j = false := hcase.wakeupPred_of_blocking hblocking
        rw [wakeupPred_of_isFlagged h.flagged] at hpred
        cases hpred
      · rw [hcase.worker_of_ne hji] at hblocking
        exact hplace hblocking
    · rcases hcase.mem_waiting hmem with hmem | ⟨rfl, hblocking⟩
      · exact hwaiting hmem
      · exact hplace hblocking

/-- **Shutdown wakes the core workers.** In every state after the `notify_all` of a `Shutdown`, no
core worker is asleep, exactly if at that `notify_all` no core worker was between its test and its
wait. -/
theorem shutdown_wakes_iff (config : PoolConfig) (as : List (Action κ τ))
    (hrun : runAll step (started config) as = .ok s) (k : κ) (hk : s.caller k = .notifyingAll) :
    (∀ bs t, runAll step s (.advance k :: bs) = .ok t → ∀ i, ¬t.Asleep i) ↔
      ∀ i, (s.worker i).flag = .core → (s.worker i).place ≠ .blocking := by
  have hstored : s.FlagStored :=
    runAll_invariant (fun _ _ _ h hs ↦ h.step hs) (fun j hj ↦ by cases hj) hrun
  have hstep : s.step (.advance k) =
      .ok { s.moveCaller k .withdrawing with cond := s.cond.notifyAll } := by
    simp only [step, advance, hk]
  constructor
  · -- the worker that was about to block does so
    intro h i hcore hblocking
    let notified : ThreadPool κ τ :=
      { s.moveCaller k .withdrawing with cond := s.cond.notifyAll }
    have hblock : notified.step (.work i) =
        .ok { notified.moveWorker i .blocked with
          mutex := none, cond := notified.cond.wait i } := by
      have hplace : (notified.worker i).place = .blocking := hblocking
      simp only [step, work, hplace]
    refine h [.work i] _ (runAll_cons_eq_ok.mpr ⟨notified, hstep,
      runAll_cons_eq_ok.mpr ⟨_, hblock, rfl⟩⟩) i ⟨?_, ?_, hstored k hk⟩
    · rwa [(work_cases hblock).flag_eq i]
    · exact CondVar.mem_waiting_wait.mpr (Or.inl rfl)
  · intro h bs t ht i hasleep
    obtain ⟨s', hs', hrest⟩ := runAll_cons_eq_ok.mp ht
    have hawake : s'.Awake := by
      rw [hstep] at hs'
      cases hs'
      exact ⟨hstored k hk, fun j hj ↦ ⟨h j hj, Finset.notMem_empty j⟩⟩
    have hawake' : t.Awake := runAll_invariant (fun _ _ _ h hs ↦ h.step hs) hawake hrest
    exact (hawake'.core i hasleep.1).2 hasleep.2.1

/-- A pool with one core thread. -/
def oneThread : PoolConfig := ⟨1, 1, 2, 100⟩

/-- The worker is blocked when `Shutdown` is called. -/
theorem shutdown_wakes_iff_blocked :
    ∃ s : ThreadPool Unit ℕ,
      runAll step (started oneThread)
        [.work 0, .work 0, .work 0, .shutdown () false, .advance ()] = .ok s ∧
      s.cond.waiting = {0} ∧
      ∀ bs t, runAll step s (.advance () :: bs) = .ok t → ∀ i, ¬t.Asleep i := by
  refine exists_ok_of_map
    (fun s ↦ (s.caller (), s.cond.waiting, (s.worker 0).place, s.nextThreadId))
    (.notifyingAll, {0}, .blocked, 1) (by decide +kernel) fun s hs hobserved ↦ ?_
  simp only [Prod.mk.injEq] at hobserved
  obtain ⟨hcaller, hwaiting, hplace, hnext⟩ := hobserved
  have hfresh : s.Fresh := runAll_invariant (fun _ _ _ h hs ↦ h.step hs) (fresh_started _) hs
  refine ⟨hwaiting, (shutdown_wakes_iff oneThread _ hs () hcaller).mpr ?_⟩
  intro i _ hblocking
  cases i with
  | zero =>
    rw [hplace] at hblocking
    cases hblocking
  | succ i =>
    rw [hfresh (i + 1) (by omega)] at hblocking
    cases hblocking

/-- The worker has tested the flags. Then `Shutdown` stores its flag and calls `notify_all`, and the
worker blocks. -/
theorem asleep_after_notifyAll :
    ∃ s : ThreadPool Unit ℕ,
      runAll step (started oneThread) [.work 0, .work 0, .shutdown () false, .advance (),
        .advance (), .advance (), .work 0] = .ok s ∧
      s.caller () = .joining 0 ∧ s.Asleep 0 := by
  refine exists_ok_of_map (fun s ↦ (s.caller (), s.cond.waiting, (s.worker 0).flag, s.isFlagged))
    (.joining 0, {0}, .core, true) (by decide +kernel) fun s hs hobserved ↦ ?_
  simp only [Prod.mk.injEq] at hobserved
  obtain ⟨hcaller, hwaiting, hcore, hflagged⟩ := hobserved
  exact ⟨hcaller, hcore, hwaiting ▸ Finset.mem_singleton_self 0, hflagged⟩

end ThreadPool

end Hlib

end Fishnet
