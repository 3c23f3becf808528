import Fishnet.Hlib.ThreadPool

/-!
# The limit on the number of threads

`Run` starts a cache thread if it counts fewer than `max_thread_num` threads. The count is taken
under the mutex, but the thread is started without it and linked into the list under the mutex
later. Two calls of `Run` that both count before either of them links its thread add two threads
where there was room for one.

## The argument

`Growth` says what an action can do to the list of threads. If only one thread calls `Run`, nothing
is counted between a count and the link that follows it (`OneAtATime`). If the core threads reach
the limit, no count is ever below it (`Settled`).

In the other direction a run is put together from parts: calls of `Run` that each add a thread until
there is room for one more (`exists_idle`), and then two calls that count before they link.

## Main results

* `ThreadPool.threadNum_le_iff`
-/

namespace Fishnet

open Function List

namespace Hlib

/-- The thread has been started and has not terminated. -/
def WorkerPlace.isLive {τ : Type} : WorkerPlace τ → Bool
  | absent | terminated => false
  | _ => true

namespace ThreadPool

variable {κ τ : Type}

/-- The number of workers that live. -/
def liveNum (s : ThreadPool κ τ) : ℕ :=
  (List.range s.nextThreadId).countP fun i ↦ (s.worker i).place.isLive

theorem liveNum_le (s : ThreadPool κ τ) : s.liveNum ≤ s.nextThreadId :=
  countP_le_length.trans_eq length_range

/-- Only calls of `Run` and steps of workers. -/
def NoShutdown (actions : List (Action κ τ)) : Prop :=
  ∀ k isNow, .shutdown k isNow ∉ actions

variable [DecidableEq κ] {s s' : ThreadPool κ τ} {a : Action κ τ} {k : κ}

/-! ## The list of threads -/

theorem config_step (hs : s.step a = .ok s') : s'.config = s.config := by
  cases step_cases hs with
  | caller k h =>
    cases h with
    | storeFlag isNow hcaller => cases isNow <;> rfl
    | _ => rfl
  | worker i h => cases h <;> rfl

/-- What an action can do to the list of threads. -/
inductive Growth (s s' : ThreadPool κ τ) : Prop
  | quiet (hthreads : s'.threads = s.threads) (hnext : s'.nextThreadId = s.nextThreadId)
    (hstarting : ∀ k task, s'.caller k = .starting task →
      s.caller k = .starting task ∨ (s.threads.length : ℤ) < s.config.maxThreadNum)
    (happending : ∀ k task id, s'.caller k = .appending task id ↔ s.caller k = .appending task id)
  | start (k : κ) (task : τ) (hcaller : s.caller k = .starting task)
    (hs' : s' = s.addThread k task .cache)
  | link (k : κ) (task : τ) (id : ℕ) (hcaller : s.caller k = .appending task id)
    (hs' : s' = { s.moveCaller k (.pushing task) with threads := s.threads ++ [id] })

/-- A caller that neither starts nor links a thread. -/
theorem Growth.of_caller (k : κ) (hthreads : s'.threads = s.threads)
    (hnext : s'.nextThreadId = s.nextThreadId) (hother : ∀ j, j ≠ k → s'.caller j = s.caller j)
    (hold : ∀ task id, s.caller k ≠ .appending task id)
    (hnew : ∀ task id, s'.caller k ≠ .appending task id)
    (hstarting : ∀ task, s'.caller k = .starting task →
      (s.threads.length : ℤ) < s.config.maxThreadNum) : Growth s s' := by
  refine .quiet hthreads hnext (fun j task hj ↦ ?_) fun j task id ↦ ?_
  · by_cases hjk : j = k
    · subst hjk
      exact Or.inr (hstarting task hj)
    · exact Or.inl ((hother j hjk).symm.trans hj)
  · by_cases hjk : j = k
    · subst hjk
      exact iff_of_false (hnew task id) (hold task id)
    · rw [hother j hjk]

theorem CallerCase.growth (h : CallerCase s k s') (hcount : ∀ task, s.caller k ≠ .counting task) :
    Growth s s' := by
  have hother : ∀ j, j ≠ k → s'.caller j = s.caller j := fun j hj ↦ h.caller_of_ne hj
  cases h with
  | count task place hcaller hplace => exact absurd hcaller (hcount task)
  | addThread task hcaller => exact .start k task hcaller rfl
  | appendThread task id hcaller => exact .link k task id hcaller rfl
  | reject task hcaller =>
    exact .of_caller k rfl rfl hother (by simp [hcaller]) (by simp [hcaller]) (by simp [hcaller])
  | load task place hcaller hplace =>
    rcases hplace with rfl | rfl <;>
      exact .of_caller k rfl rfl hother (by simp [hcaller]) (by simp [moveCaller])
        (by simp [moveCaller])
  | shutdown isNow hcaller =>
    refine .of_caller k rfl rfl hother (by simp [hcaller]) ?_ ?_ <;>
      cases havailable : s.isAvailable <;> simp [ThreadPool.shutdown, moveCaller, havailable]
  | storeFlag isNow hcaller =>
    cases isNow <;>
      exact .of_caller k rfl rfl hother (by simp [hcaller])
        (by simp [ThreadPool.storeFlag, moveCaller]) (by simp [ThreadPool.storeFlag, moveCaller])
  | _ =>
    exact .of_caller k rfl rfl hother (by simp [*]) (by simp [moveCaller]) (by simp [moveCaller])

/-- A caller that counts starts a thread only if it counts fewer than allowed. -/
theorem growth_of_counting {task : τ} (hcaller : s.caller k = .counting task)
    (hs : s.advance k = .ok s') : Growth s s' := by
  simp only [advance, hcaller] at hs
  obtain ⟨-, rfl⟩ := guarded_eq_ok.mp hs
  refine .of_caller k rfl rfl (fun j hj ↦ caller_moveCaller_of_ne s hj _) (by simp [hcaller]) ?_ ?_
  · intro task' id
    rw [caller_moveCaller_self]
    split_ifs <;> simp
  · intro task'
    rw [caller_moveCaller_self]
    split_ifs with hlt
    · exact fun _ ↦ hlt
    · simp

theorem growth_of_step (hs : s.step a = .ok s') : Growth s s' := by
  rcases step_eq_ok hs with ⟨k, hcase, hk⟩ | ⟨i, hi⟩
  · cases hcaller : s.caller k with
    | counting task =>
      rw [hcaller] at hk
      rcases hk with hk | hk | hk
      · exact growth_of_counting hcaller hk
      · cases hk
      · cases hk
    | _ => exact hcase.growth (by simp [hcaller])
  · obtain ⟨hcaller, hthreads, hnext, -⟩ := (hi.elim work_cases expire_cases).sameCallers
    exact .quiet hthreads hnext (fun k task hk ↦ Or.inl (hcaller ▸ hk)) fun k task id ↦ by
      rw [hcaller]

/-! ## One caller -/

/-- There is room for every thread that is started. -/
structure OneAtATime (s : ThreadPool κ τ) : Prop where
  next_le : (s.nextThreadId : ℤ) ≤ s.config.maxThreadNum
  linked : (∀ k task id, s.caller k ≠ .appending task id) → s.threads.length = s.nextThreadId
  appending : ∀ k task id, s.caller k = .appending task id →
    s.threads.length + 1 = s.nextThreadId
  starting : ∀ k task, s.caller k = .starting task →
    (s.nextThreadId : ℤ) < s.config.maxThreadNum

omit [DecidableEq κ] in
theorem OneAtATime.length_le (h : s.OneAtATime) :
    (s.threads.length : ℤ) ≤ s.config.maxThreadNum := by
  have hle := h.next_le
  by_cases happending : ∀ k task id, s.caller k ≠ .appending task id
  · rw [h.linked happending]
    exact hle
  · push Not at happending
    obtain ⟨k, task, id, hk⟩ := happending
    have hlength := h.appending k task id hk
    omega

theorem OneAtATime.step [Subsingleton κ] (h : s.OneAtATime) (hs : s.step a = .ok s') :
    s'.OneAtATime := by
  have hconfig := config_step hs
  have hle := h.next_le
  cases growth_of_step hs with
  | quiet hthreads hnext hstarting happending =>
    refine ⟨?_, fun hnone ↦ ?_, fun k task id hk ↦ ?_, fun k task hk ↦ ?_⟩
    · rw [hnext, hconfig]
      exact hle
    · rw [hthreads, hnext]
      exact h.linked fun k task id hk ↦ hnone k task id ((happending k task id).2 hk)
    · rw [hthreads, hnext]
      exact h.appending k task id ((happending k task id).1 hk)
    · rw [hnext, hconfig]
      rcases hstarting k task hk with hold | hlt
      · exact h.starting k task hold
      · -- the only caller has just counted, so all threads are in the list
        rwa [h.linked] at hlt
        intro j task' id hj
        rw [← happending, Subsingleton.elim j k, hk] at hj
        cases hj
  | start k task hcaller hs' =>
    have hroom := h.starting k task hcaller
    have hlength : s.threads.length = s.nextThreadId := by
      refine h.linked fun j task' id hj ↦ ?_
      rw [Subsingleton.elim j k, hcaller] at hj
      cases hj
    subst hs'
    have hk : (s.addThread k task .cache).caller k = .appending task s.nextThreadId :=
      caller_moveCaller_self s k _
    refine ⟨?_, fun hnone ↦ absurd hk (hnone k _ _), fun _ _ _ _ ↦ ?_, fun j task' hj ↦ ?_⟩
    · change ((s.nextThreadId + 1 : ℕ) : ℤ) ≤ s.config.maxThreadNum
      omega
    · change s.threads.length + 1 = s.nextThreadId + 1
      rw [hlength]
    · rw [Subsingleton.elim j k, hk] at hj
      cases hj
  | link k task id hcaller hs' =>
    have hlength := h.appending k task id hcaller
    subst hs'
    have hk : (s.moveCaller k (.pushing task)).caller k = .pushing task :=
      caller_moveCaller_self s k _
    refine ⟨hle, fun _ ↦ ?_, fun j task' id' hj ↦ ?_, fun j task' hj ↦ ?_⟩
    · change (s.threads ++ [id]).length = s.nextThreadId
      rw [length_append, length_singleton, hlength]
    · rw [Subsingleton.elim j k] at hj
      cases hk.symm.trans hj
    · rw [Subsingleton.elim j k] at hj
      cases hk.symm.trans hj

/-! ## No room for a cache thread -/

/-- There are `n` threads and no room for another, if there is a caller at all. -/
structure Settled (n : ℕ) (s : ThreadPool κ τ) : Prop where
  length : s.threads.length = n
  next : s.nextThreadId = n
  full : Nonempty κ → s.config.maxThreadNum ≤ n
  starting : ∀ k task, s.caller k ≠ .starting task
  appending : ∀ k task id, s.caller k ≠ .appending task id

theorem Settled.step {n : ℕ} (h : s.Settled n) (hs : s.step a = .ok s') : s'.Settled n := by
  have hconfig := config_step hs
  cases growth_of_step hs with
  | quiet hthreads hnext hstarting happending =>
    refine ⟨hthreads ▸ h.length, hnext ▸ h.next, hconfig ▸ h.full, fun k task hk ↦ ?_,
      fun k task id hk ↦ h.appending k task id ((happending k task id).1 hk)⟩
    rcases hstarting k task hk with hold | hlt
    · exact h.starting k task hold
    · rw [h.length] at hlt
      exact hlt.not_ge (h.full ⟨k⟩)
  | start k task hcaller hs' => exact absurd hcaller (h.starting k task)
  | link k task id hcaller hs' => exact absurd hcaller (h.appending k task id)

/-! ## Parts of a run -/

section Parts

variable {task : τ} {i : ℕ}

/-- The pool takes tasks, and nobody waits or holds the mutex. -/
structure AtRest (s : ThreadPool κ τ) : Prop where
  available : s.isAvailable = true
  shutdown : s.isShutdown = false
  now : s.isShutdownNow = false
  waiting : s.waitingThreadNum = 0
  mutex : s.mutex = none

omit [DecidableEq κ] in
theorem moveCaller_moveCaller [DecidableEq κ] (s : ThreadPool κ τ) (k : κ)
    (place place' : CallerPlace τ) :
    (s.moveCaller k place).moveCaller k place' = s.moveCaller k place' := by
  rw [moveCaller, moveCaller, moveCaller]
  simp only [update_idem]

theorem runAll_count (h : s.AtRest) (hcaller : s.caller k = .idle) :
    runAll step s [.run k task, .advance k] = .ok (s.moveCaller k (.counting task)) := by
  have hrun : s.step (.run k task) = .ok (s.moveCaller k (.checked task)) := by
    simp [step, hcaller, run, h.available, h.shutdown, h.now]
  have hload : (s.moveCaller k (.checked task)).step (.advance k) =
      .ok (s.moveCaller k (.counting task)) := by
    simp only [step, advance, caller_moveCaller_self]
    rw [if_pos (show (s.moveCaller k _).waitingThreadNum = 0 from h.waiting),
      moveCaller_moveCaller]
  rw [runAll_cons_eq_ok]
  exact ⟨_, hrun, runAll_cons_eq_ok.2 ⟨_, hload, rfl⟩⟩

theorem step_count (hmutex : s.mutex = none) (hcaller : s.caller k = .counting task)
    (hroom : (s.threads.length : ℤ) < s.config.maxThreadNum) :
    s.step (.advance k) = .ok (s.moveCaller k (.starting task)) := by
  simp only [step, advance, hcaller]
  rw [if_pos hroom, guarded_eq_ok]
  exact ⟨hmutex, rfl⟩

theorem runAll_start (h : s.AtRest) (hcaller : s.caller k = .idle)
    (hroom : (s.threads.length : ℤ) < s.config.maxThreadNum) :
    runAll step s [.run k task, .advance k, .advance k] =
      .ok (s.moveCaller k (.starting task)) := by
  have hcount := step_count (s := s.moveCaller k (.counting task)) h.mutex
    (caller_moveCaller_self s k _) hroom
  rw [moveCaller_moveCaller] at hcount
  exact runAll_append_eq_ok.2 ⟨_, runAll_count h hcaller, runAll_cons_eq_ok.2 ⟨_, hcount, rfl⟩⟩

/-- The state after a thread has been started and linked. -/
def linked (s : ThreadPool κ τ) (k : κ) (task : τ) : ThreadPool κ τ :=
  { s.moveCaller k (.pushing task) with
    nextThreadId := s.nextThreadId + 1
    worker := update s.worker s.nextThreadId ⟨.cache, .init, .locking⟩
    threads := s.threads ++ [s.nextThreadId] }

theorem runAll_link (hmutex : s.mutex = none) (hcaller : s.caller k = .starting task) :
    runAll step s [.advance k, .advance k] = .ok (s.linked k task) := by
  have hstart : s.step (.advance k) = .ok (s.addThread k task .cache) := by
    simp only [step, advance, hcaller]
  have hlink : (s.addThread k task .cache).step (.advance k) = .ok (s.linked k task) := by
    have hk : (s.addThread k task .cache).caller k = .appending task s.nextThreadId :=
      caller_moveCaller_self s k _
    simp only [step, advance, hk]
    rw [guarded_eq_ok]
    refine ⟨hmutex, ?_⟩
    simp only [linked, addThread, moveCaller, update_idem]
  rw [runAll_cons_eq_ok]
  exact ⟨_, hstart, runAll_cons_eq_ok.2 ⟨_, hlink, rfl⟩⟩

theorem step_notify (hcaller : s.caller k = .notifying) (hcond : s.cond.waiting = ∅) :
    s.step (.notifyOne k none) = .ok (s.moveCaller k .idle) := by
  simp only [step, hcaller]
  rw [guarded_eq_ok]
  exact ⟨hcond, rfl⟩

theorem runAll_push (hmutex : s.mutex = none) (hcaller : s.caller k = .pushing task)
    (hcond : s.cond.waiting = ∅) :
    runAll step s [.advance k, .notifyOne k none] =
      .ok { s.moveCaller k .idle with
        tasks := s.tasks ++ [task], accepted := s.accepted ++ [task] } := by
  obtain ⟨s₁, hs₁⟩ : ∃ s₁ : ThreadPool κ τ, s₁ = { s.moveCaller k .notifying with
    tasks := s.tasks ++ [task], accepted := s.accepted ++ [task] } := ⟨_, rfl⟩
  have hpush : s.step (.advance k) = .ok s₁ := by
    simp only [step, advance, hcaller]
    rw [guarded_eq_ok]
    exact ⟨hmutex, hs₁.symm⟩
  have hnotify : s₁.step (.notifyOne k none) = .ok (s₁.moveCaller k .idle) := by
    refine step_notify ?_ ?_
    · rw [hs₁]
      exact caller_moveCaller_self s k _
    · rw [hs₁]
      exact hcond
  rw [runAll_cons_eq_ok]
  refine ⟨_, hpush, runAll_cons_eq_ok.2 ⟨_, hnotify, ?_⟩⟩
  rw [hs₁]
  simp only [runAll, moveCaller, update_idem]

theorem runAll_execute {tasks : List τ} (h : s.AtRest) (hplace : (s.worker i).place = .locking)
    (hstate : (s.worker i).state ≠ .stop) (htasks : s.tasks = task :: tasks) :
    runAll step s [.work i, .work i, .work i, .work i] =
      .ok { s with
        tasks := tasks, executed := s.executed ++ [task]
        worker := update s.worker i ⟨(s.worker i).flag, .running, .locking⟩ } := by
  -- it enters, sees the task, takes it, and executes it
  simp [runAll, step, work, enter, proceed, wakeupPred, moveWorker, guarded, attempt,
    Except.mapError, ok_bind, hplace, hstate, htasks, h.mutex, h.shutdown, h.now]

end Parts

/-! ## Adding threads -/

section Adding

variable {config : PoolConfig} {n : ℕ}

/-- There are `n` threads, and nothing to do. -/
structure Idle (config : PoolConfig) (n : ℕ) (s : ThreadPool κ τ) : Prop extends AtRest s where
  config_eq : s.config = config
  tasks : s.tasks = []
  cond : s.cond.waiting = ∅
  length : s.threads.length = n
  next : s.nextThreadId = n
  caller : ∀ k, s.caller k = .idle
  locking : ∀ i < n, (s.worker i).place = .locking ∧ (s.worker i).state ≠ .stop
  cache : ∀ i < n, coreThreads config ≤ i → (s.worker i).flag ≠ .core

omit [DecidableEq κ] in
theorem idle_started (hconfig : config.isAvaliableConfig = true) :
    Idle config (coreThreads config) (started config : ThreadPool κ τ) := by
  refine ⟨⟨hconfig, rfl, rfl, rfl, rfl⟩, rfl, rfl, rfl, length_range, rfl, fun _ ↦ rfl,
    fun i hi ↦ ?_, fun i hi hcore ↦ absurd hi (not_lt.2 hcore)⟩
  simp [started, hi]

/-- A call of `Run` that adds a thread, which then executes the task. -/
theorem Idle.add_thread (h : Idle config n s) (hroom : (n : ℤ) < config.maxThreadNum) (k : κ)
    (task : τ) : ∃ actions s', NoShutdown actions ∧ runAll step s actions = .ok s' ∧
      Idle config (n + 1) s' := by
  obtain ⟨s₁, hs₁⟩ : ∃ s₁, s₁ = s.moveCaller k (.starting task) := ⟨_, rfl⟩
  obtain ⟨s₂, hs₂⟩ : ∃ s₂, s₂ = s₁.linked k task := ⟨_, rfl⟩
  obtain ⟨s₃, hs₃⟩ : ∃ s₃ : ThreadPool κ τ, s₃ = { s₂.moveCaller k .idle with
    tasks := s₂.tasks ++ [task], accepted := s₂.accepted ++ [task] } := ⟨_, rfl⟩
  have hstart : runAll step s [.run k task, .advance k, .advance k] = .ok s₁ := by
    rw [hs₁]
    exact runAll_start h.toAtRest (h.caller k) (by rwa [h.length, h.config_eq])
  have hlink : runAll step s₁ [.advance k, .advance k] = .ok s₂ := by
    rw [hs₂]
    exact runAll_link (hs₁ ▸ h.mutex) (hs₁ ▸ caller_moveCaller_self s k _)
  have hpush : runAll step s₂ [.advance k, .notifyOne k none] = .ok s₃ := by
    rw [hs₃]
    refine runAll_push ?_ ?_ ?_ <;> rw [hs₂, hs₁]
    · exact h.mutex
    · exact caller_moveCaller_self _ k _
    · exact h.cond
  have hrest : s₃.AtRest := by
    rw [hs₃, hs₂, hs₁]
    exact ⟨h.available, h.shutdown, h.now, h.waiting, h.mutex⟩
  have hworker : s₃.worker = update s.worker n ⟨.cache, .init, .locking⟩ := by
    rw [hs₃, hs₂, hs₁, ← h.next]
    rfl
  have htasks : s₃.tasks = [task] := by
    rw [hs₃, hs₂, hs₁]
    change s.tasks ++ [task] = [task]
    rw [h.tasks, nil_append]
  have hexecute := runAll_execute (i := n) hrest (by rw [hworker, update_self])
    (by rw [hworker, update_self]; nofun) htasks
  refine ⟨_, _, ?_, runAll_append_eq_ok.2 ⟨_, hstart, runAll_append_eq_ok.2 ⟨_, hlink,
    runAll_append_eq_ok.2 ⟨_, hpush, hexecute⟩⟩⟩, ?_⟩
  · simp [NoShutdown]
  · have hold : ∀ i, i ≠ n → update s₃.worker n
        ⟨(s₃.worker n).flag, .running, .locking⟩ i = s.worker i := by
      intro i hi
      rw [update_of_ne hi, hworker, update_of_ne hi]
    refine ⟨⟨hrest.available, hrest.shutdown, hrest.now, hrest.waiting, hrest.mutex⟩, ?_, rfl,
      ?_, ?_, ?_, fun j ↦ ?_, fun i hi ↦ ?_, fun i hi hcore ↦ ?_⟩
    · rw [hs₃, hs₂, hs₁]
      exact h.config_eq
    · rw [hs₃, hs₂, hs₁]
      exact h.cond
    · rw [hs₃, hs₂, hs₁]
      change (s.threads ++ [s.nextThreadId]).length = n + 1
      rw [length_append, length_singleton, h.length]
    · rw [hs₃, hs₂, hs₁]
      exact congrArg (· + 1) h.next
    · rw [hs₃, hs₂, hs₁]
      simp only [linked, moveCaller, update_idem]
      by_cases hj : j = k
      · rw [hj, update_self]
      · rw [update_of_ne hj, h.caller j]
    · by_cases hin : i = n
      · subst hin
        simp
      · simp only [hold i hin]
        exact h.locking i (by omega)
    · by_cases hin : i = n
      · subst hin
        simp [hworker]
      · simp only [hold i hin]
        exact h.cache i (by omega) hcore

/-- Cache threads can be added one by one, up to the limit. -/
theorem exists_idle (hconfig : config.isAvaliableConfig = true) (k : κ) (task : τ)
    (hcore : coreThreads config ≤ n) (hmax : (n : ℤ) ≤ config.maxThreadNum) :
    ∃ actions, ∃ s : ThreadPool κ τ, NoShutdown actions ∧
      runAll step (started config) actions = .ok s ∧ Idle config n s := by
  induction n, hcore using Nat.le_induction with
  | base => exact ⟨[], _, by simp [NoShutdown], rfl, idle_started hconfig⟩
  | succ n hcore ih =>
    obtain ⟨actions, s, hno, hrun, hs⟩ := ih (by omega)
    obtain ⟨actions', s', hno', hrun', hs'⟩ := hs.add_thread (by omega) k task
    refine ⟨actions ++ actions', s', fun j isNow hmem ↦ ?_, runAll_append_eq_ok.2 ⟨s, hrun, hrun'⟩,
      hs'⟩
    rcases mem_append.1 hmem with hmem | hmem
    · exact hno j isNow hmem
    · exact hno' j isNow hmem

end Adding

/-! ## The limit -/

section Limit

variable {config : PoolConfig}

omit [DecidableEq κ] in
theorem coreThreads_eq (hconfig : config.isAvaliableConfig = true) :
    (coreThreads config : ℤ) = config.coreThreadNum := by
  have hpos : 0 < config.coreThreadNum := by
    simp only [PoolConfig.isAvaliableConfig, Bool.and_eq_true, decide_eq_true_eq] at hconfig
    exact hconfig.1.1.1
  rw [coreThreads, if_pos hconfig]
  omega

/-- Two callers that count before they link. -/
theorem exceeds_of_two {n : ℕ} {s : ThreadPool κ τ} (h : Idle config n s)
    (hroom : (n : ℤ) < config.maxThreadNum) {j k : κ} (hjk : j ≠ k) (task : τ) :
    ∃ actions s', NoShutdown actions ∧ runAll step s actions = .ok s' ∧
      s'.threads.length = n + 2 := by
  have hroom' : (s.threads.length : ℤ) < s.config.maxThreadNum := by rwa [h.length, h.config_eq]
  obtain ⟨s₁, hs₁⟩ : ∃ s₁, s₁ = s.moveCaller j (.starting task) := ⟨_, rfl⟩
  obtain ⟨s₂, hs₂⟩ : ∃ s₂, s₂ = s₁.moveCaller k (.starting task) := ⟨_, rfl⟩
  have hcount : runAll step s [.run j task, .advance j, .advance j] = .ok s₁ := by
    rw [hs₁]
    exact runAll_start h.toAtRest (h.caller j) hroom'
  have hcount' : runAll step s₁ [.run k task, .advance k, .advance k] = .ok s₂ := by
    rw [hs₂]
    refine runAll_start ?_ ?_ ?_ <;> rw [hs₁]
    · exact ⟨h.available, h.shutdown, h.now, h.waiting, h.mutex⟩
    · exact (caller_moveCaller_of_ne s hjk.symm _).trans (h.caller k)
    · exact hroom'
  have hlink : runAll step s₂ [.advance j, .advance j] = .ok (s₂.linked j task) := by
    refine runAll_link ?_ ?_ <;> rw [hs₂, hs₁]
    · exact h.mutex
    · exact (caller_moveCaller_of_ne _ hjk _).trans (caller_moveCaller_self s j _)
  have hlink' : runAll step (s₂.linked j task) [.advance k, .advance k] =
      .ok ((s₂.linked j task).linked k task) := by
    refine runAll_link ?_ ?_ <;> rw [hs₂, hs₁]
    · exact h.mutex
    · exact (caller_moveCaller_of_ne _ hjk.symm _).trans (caller_moveCaller_self _ k _)
  refine ⟨_, _, ?_, runAll_append_eq_ok.2 ⟨_, hcount, runAll_append_eq_ok.2 ⟨_, hcount',
    runAll_append_eq_ok.2 ⟨_, hlink, hlink'⟩⟩⟩, ?_⟩
  · simp [NoShutdown]
  · rw [hs₂, hs₁]
    change (s.threads ++ [s.nextThreadId] ++ [s.nextThreadId + 1]).length = n + 2
    rw [length_append, length_append, length_singleton, length_singleton,
      h.length]

omit [DecidableEq κ] in
theorem oneAtATime_started (hle : (coreThreads config : ℤ) ≤ config.maxThreadNum) :
    (started config : ThreadPool κ τ).OneAtATime :=
  ⟨hle, fun _ ↦ length_range, nofun, nofun⟩

omit [DecidableEq κ] in
theorem settled_started (hle : Nonempty κ → config.maxThreadNum ≤ coreThreads config) :
    (started config : ThreadPool κ τ).Settled (coreThreads config) :=
  ⟨length_range, rfl, hle, nofun, nofun⟩

theorem config_runAll {actions : List (Action κ τ)}
    (h : runAll step (started config) actions = .ok s) : s.config = config :=
  runAll_invariant (I := fun t ↦ t.config = config) (fun _ _ _ ht hs ↦ (config_step hs).trans ht)
    rfl h

/-- **The limit on the number of threads.** For a configuration that is available, with
`core_thread_num <= max_thread_num`, no interleaving of calls of `Run` with steps of workers exceeds
the limit exactly if only one thread calls `Run` or there is no room for a cache thread. -/
theorem threadNum_le_iff [Inhabited τ] (config : PoolConfig)
    (hconfig : config.isAvaliableConfig = true)
    (hle : config.coreThreadNum ≤ config.maxThreadNum) :
    (∀ (actions : List (Action κ τ)) (s : ThreadPool κ τ), NoShutdown actions →
      runAll step (started config) actions = .ok s →
        (s.threads.length : ℤ) ≤ config.maxThreadNum ∧ (s.liveNum : ℤ) ≤ config.maxThreadNum) ↔
      (Subsingleton κ ∨ config.coreThreadNum = config.maxThreadNum) := by
  have hcore := coreThreads_eq hconfig
  constructor
  · intro hbound
    by_contra hmany
    rw [not_or, not_subsingleton_iff_nontrivial] at hmany
    obtain ⟨⟨j, k, hjk⟩, hne⟩ := hmany
    -- up to the last place, and then two threads for it
    obtain ⟨n, hn⟩ : ∃ n : ℕ, (n : ℤ) + 1 = config.maxThreadNum :=
      ⟨(config.maxThreadNum - 1).toNat, by omega⟩
    obtain ⟨actions, s, hno, hrun, hs⟩ := exists_idle (n := n) hconfig j (default : τ) (by omega)
      (by omega)
    obtain ⟨actions', s', hno', hrun', hlength⟩ := exceeds_of_two hs (by omega) hjk default
    have hexceeds := (hbound (actions ++ actions') s'
      (fun l isNow hmem ↦ (mem_append.1 hmem).elim (hno l isNow) (hno' l isNow))
      (runAll_append_eq_ok.2 ⟨s, hrun, hrun'⟩)).1
    omega
  · rintro hfew actions s - hrun
    have hs := config_runAll hrun
    have hlive := s.liveNum_le
    rcases hfew with hone | heq
    · have hinv : s.OneAtATime := runAll_invariant (fun _ _ _ ht hs ↦ ht.step hs)
        (oneAtATime_started (by omega)) hrun
      have hlength := hinv.length_le
      have hnext := hinv.next_le
      rw [hs] at hlength hnext
      omega
    · have hinv : s.Settled (coreThreads config) := runAll_invariant
        (fun _ _ _ ht hs ↦ ht.step hs) (settled_started fun _ ↦ by omega) hrun
      have hlength := hinv.length
      have hnext := hinv.next
      omega

/-- One caller, which runs into the limit with its second task. -/
theorem threadNum_le_one_caller :
    let actions : List (Action Unit Unit) :=
      [.run () (), .advance (), .advance (), .advance (), .advance (), .advance (),
        .notifyOne () none, .run () (), .advance (), .advance (), .advance ()]
    ∃ s, runAll step (started ⟨1, 2, 10, 100⟩) actions = .ok s ∧
      (s.threads.length : ℤ) ≤ 2 ∧ (s.liveNum : ℤ) ≤ 2 := by
  intro actions
  have hno : NoShutdown actions := by simp [NoShutdown, actions]
  obtain ⟨s, hs⟩ : ∃ s, runAll step (started ⟨1, 2, 10, 100⟩) actions = .ok s := ⟨_, rfl⟩
  exact ⟨s, hs, (threadNum_le_iff ⟨1, 2, 10, 100⟩ (by decide) (by decide)).2
    (Or.inl inferInstance) actions s hno hs⟩

/-- Two callers count one thread each, and there are three threads where two are allowed. -/
theorem threadNum_exceeds_two_callers :
    ∃ s : ThreadPool Bool Unit, runAll step (started ⟨1, 2, 10, 100⟩)
        [.run false (), .advance false, .advance false, .run true (), .advance true, .advance true,
          .advance false, .advance false, .advance true, .advance true] = .ok s ∧
      s.threads.length = 3 ∧ s.liveNum = 3 :=
  ⟨_, rfl, rfl, rfl⟩

end Limit

end ThreadPool

end Hlib

end Fishnet
