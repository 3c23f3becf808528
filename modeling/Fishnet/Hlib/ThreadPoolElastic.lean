import Fishnet.Hlib.ThreadPoolInvariant
import Fishnet.Hlib.ThreadPoolLimit

/-!
# Cache threads that have terminated

`Run` takes the length of the list of threads for the number of threads. A cache worker whose time
is over terminates and stays in the list. From then on the pool counts a thread that is not there.
When the list has reached `max_thread_num`, no thread is ever started again, however many workers
have terminated.

## The argument

Without a shutdown a core worker never terminates (`Steady`). So if the core threads leave no room
for a cache thread, or nobody calls `Run`, the list and the live workers are the same.

In all other cases there is a run that fills the list with cache threads and then lets the last of
them time out (`Idle.time_out`).

## Main results

* `ThreadPool.elastic_iff`
-/

namespace Fishnet

open List

namespace Hlib

/-- Where a core worker is as long as there is no shutdown. -/
def WorkerPlace.staysOn {τ : Type} : WorkerPlace τ → Bool
  | absent | expired | proceeding true | terminated => false
  | _ => true

theorem WorkerPlace.isLive_of_staysOn {τ : Type} {place : WorkerPlace τ}
    (h : place.staysOn = true) : place.isLive = true := by
  cases place with
  | absent | terminated => cases h
  | _ => rfl

/-- A core worker that nobody has told to stop. -/
structure ThreadWrapper.Stays {τ : Type} (w : ThreadWrapper τ) : Prop where
  flag : w.flag = .core
  state : w.state ≠ .stop
  place : w.place.staysOn = true

namespace ThreadPool

variable {κ τ : Type} [DecidableEq κ] {s s' : ThreadPool κ τ} {a : Action κ τ} {k : κ} {i n : ℕ}

/-! ## Without a shutdown -/

theorem shutdowns_step (ha : ∀ k isNow, a ≠ .shutdown k isNow) (hs : s.step a = .ok s') :
    s'.shutdowns = s.shutdowns := by
  cases a with
  | shutdown k isNow => exact absurd rfl (ha k isNow)
  | run k task =>
    revert hs
    rw [step]
    cases s.caller k with
    | idle =>
      rintro ⟨⟩
      rw [run]
      split_ifs <;> rfl
    | _ => rintro ⟨⟩
  | advance k =>
    cases advance_cases hs with
    | shutdown isNow hcaller => simp [step, advance, hcaller] at hs
    | storeFlag isNow hcaller => cases isNow <;> rfl
    | _ => rfl
  | notifyOne k wakes =>
    revert hs
    rw [step]
    cases s.caller k with
    | notifying =>
      intro hs
      obtain ⟨-, rfl⟩ := guarded_eq_ok.mp hs
      rfl
    | _ => rintro ⟨⟩
  | work i => exact (work_cases hs).sameCallers.shutdowns
  | expire i => exact (expire_cases hs).sameCallers.shutdowns

theorem CallerCase.isFlagged_eq (h : CallerCase s k s') (hcalls : s.Calls)
    (hnone : s.shutdowns = []) : s'.isFlagged = s.isFlagged := by
  cases h with
  | storeFlag isNow hcaller =>
    have hone := hcalls.one k (by rw [hcaller]; rfl)
    rw [hnone] at hone
    exact absurd hone (by decide)
  | _ => rfl

omit [DecidableEq κ] in
theorem stays_of_work (h : (s.worker i).Stays) (hflags : s.isFlagged = false) :
    s.work i = .ok s' → (s'.worker i).Stays := by
  obtain ⟨hflag, hstate, hplace⟩ := h
  rw [isFlagged, Bool.or_eq_false_iff] at hflags
  rw [work]
  cases hat : (s.worker i).place with
  | locking =>
    intro hs
    obtain ⟨-, rfl⟩ := guarded_eq_ok.mp hs
    rw [enter, if_neg hstate]
    constructor <;> simp [hflag, WorkerPlace.staysOn]
  | testing =>
    rintro ⟨⟩
    split_ifs <;> constructor <;> simp [moveWorker, hflag, hstate, WorkerPlace.staysOn]
  | blocking =>
    rintro ⟨⟩
    constructor <;> simp [moveWorker, hflag, hstate, WorkerPlace.staysOn]
  | blocked =>
    intro hs
    obtain ⟨-, rfl⟩ := guarded_eq_ok.mp hs
    constructor <;> simp [moveWorker, hflag, hstate, WorkerPlace.staysOn]
  | proceeding isTimeout =>
    intro hs
    -- the wait has not timed out, so there is a task
    obtain rfl : isTimeout = false := by
      rw [hat] at hplace
      cases isTimeout with
      | false => rfl
      | true => cases hplace
    have hproceed := (attempt_eq_ok.mp hs).2
    cases htasks : s.tasks with
    | nil => simp [proceed, hstate, hflags, htasks] at hproceed
    | cons task tasks =>
      simp only [proceed, hflags, htasks] at hproceed
      simp only [Bool.false_eq_true, ↓reduceIte, hstate, Bool.false_and, or_self,
        Except.ok.injEq] at hproceed
      rw [← hproceed]
      constructor <;> simp [hflag, WorkerPlace.staysOn]
  | running task =>
    rintro ⟨⟩
    constructor <;> simp [moveWorker, hflag, hstate, WorkerPlace.staysOn]
  | expired =>
    rw [hat] at hplace
    cases hplace
  | absent | terminated => rintro ⟨⟩

omit [DecidableEq κ] in
theorem stays_of_expire (h : (s.worker i).Stays) : s.expire i = .ok s' → (s'.worker i).Stays := by
  rw [expire]
  cases (s.worker i).place with
  | blocked =>
    intro hs
    exact absurd h.flag (guarded_eq_ok.mp hs).1.1
  | _ => rintro ⟨⟩

/-- There are `n` core threads, nobody has called `Shutdown`, and no other thread is started. -/
structure Steady (n : ℕ) (s : ThreadPool κ τ) : Prop extends Settled n s where
  shutdowns : s.shutdowns = []
  flagged : s.isFlagged = false
  worker : ∀ i < n, (s.worker i).Stays

theorem Steady.step (h : s.Steady n) (hcalls : s.Calls) (ha : ∀ k isNow, a ≠ .shutdown k isNow)
    (hs : s.step a = .ok s') : s'.Steady n := by
  refine ⟨h.toSettled.step hs, (shutdowns_step ha hs).trans h.shutdowns, ?_, fun i hi ↦ ?_⟩
  · cases step_cases hs with
    | caller k hcase => exact (hcase.isFlagged_eq hcalls h.shutdowns).trans h.flagged
    | worker i hcase => exact hcase.isFlagged_eq.trans h.flagged
  · rcases step_eq_ok hs with ⟨k, hcase, -⟩ | ⟨j, hj⟩
    · rcases hcase.worker_eq with ⟨hworker, -⟩ | ⟨hworker, -⟩
      · rw [hworker]
        exact h.worker i hi
      · rw [hworker, Function.update_of_ne (by rw [h.next]; omega)]
        exact h.worker i hi
    · by_cases hij : i = j
      · subst hij
        exact hj.elim (stays_of_work (h.worker i hi) h.flagged) (stays_of_expire (h.worker i hi))
      · rw [(hj.elim work_cases expire_cases).worker_of_ne hij]
        exact h.worker i hi

omit [DecidableEq κ] in
theorem Steady.liveNum_eq (h : s.Steady n) : s.liveNum = n := by
  rw [liveNum, h.next, countP_eq_length.mpr, length_range]
  exact fun i hi ↦ WorkerPlace.isLive_of_staysOn (h.worker i (mem_range.mp hi)).place

theorem steady_of_runAll {config : PoolConfig}
    (hfull : Nonempty κ → config.maxThreadNum ≤ coreThreads config) {actions : List (Action κ τ)}
    (hno : NoShutdown actions) (hrun : runAll ThreadPool.step (started config) actions = .ok s) :
    s.Steady (coreThreads config) := by
  have hstart : (started config : ThreadPool κ τ).Steady (coreThreads config) := by
    refine ⟨settled_started hfull, rfl, rfl, fun i hi ↦ ?_⟩
    constructor <;> simp [started, hi, WorkerPlace.staysOn]
  have halong : Along ThreadPool.step (fun _ a ↦ ∀ k isNow, a ≠ .shutdown k isNow)
      (started config : ThreadPool κ τ) actions :=
    along_of_forall fun _ a ha k isNow heq ↦ hno k isNow (heq ▸ ha)
  exact (runAll_induct (I := fun s ↦ s.Inv ∧ s.Steady (coreThreads config))
    (fun _ _ _ h ha hs ↦ ⟨h.1.step hs, h.2.step h.1.calls ha hs⟩) ⟨inv_started config, hstart⟩
    halong hrun).2

/-! ## A cache worker that times out -/

/-- A cache worker finds nothing to do and waits until its time is over. -/
theorem runAll_timeOut (h : s.AtRest) (htasks : s.tasks = [])
    (hplace : (s.worker i).place = .locking) (hstate : (s.worker i).state ≠ .stop)
    (hflag : (s.worker i).flag ≠ .core) :
    runAll step s [.work i, .work i, .work i, .expire i, .work i, .work i] =
      .ok { s with
        cond := (s.cond.wait i).leave i
        worker := Function.update s.worker i ⟨(s.worker i).flag, .stop, .terminated⟩ } := by
  simp [runAll, step, work, expire, enter, proceed, wakeupPred, moveWorker, guarded, attempt,
    Except.mapError, ok_bind, hplace, hstate, htasks, hflag, h.mutex, h.shutdown, h.now]

/-- The last thread in the list has timed out. -/
theorem Idle.time_out {config : PoolConfig} (h : Idle config n s) (hn : coreThreads config < n) :
    ∃ actions s', NoShutdown actions ∧ runAll ThreadPool.step s actions = .ok s' ∧ s'.AtRest ∧
      s'.config = config ∧ s'.threads.length = n ∧ s'.liveNum < n ∧ ∀ k, s'.caller k = .idle := by
  obtain ⟨hplace, hstate⟩ := h.locking (n - 1) (by omega)
  have hflag := h.cache (n - 1) (by omega) (by omega)
  refine ⟨_, _, ?_, runAll_timeOut h.toAtRest h.tasks hplace hstate hflag,
    ⟨h.available, h.shutdown, h.now, h.waiting, h.mutex⟩, h.config_eq, h.length, ?_, h.caller⟩
  · simp [NoShutdown]
  · rw [liveNum, h.next]
    refine (countP_lt_length_iff.mpr ⟨n - 1, mem_range.mpr (by omega), ?_⟩).trans_eq
      length_range
    simp [WorkerPlace.isLive]

theorem step_count_full {task : τ} (hmutex : s.mutex = none) (hcaller : s.caller k = .counting task)
    (hfull : s.config.maxThreadNum ≤ s.threads.length) :
    s.step (.advance k) = .ok (s.moveCaller k (.pushing task)) := by
  simp only [step, advance, hcaller]
  rw [if_neg (not_lt.mpr hfull), guarded_eq_ok]
  exact ⟨hmutex, rfl⟩

/-- Every place in the list is taken, and one thread in it has terminated. -/
theorem exists_timed_out {config : PoolConfig} (hconfig : config.isAvaliableConfig = true)
    (hroom : config.coreThreadNum < config.maxThreadNum) (k : κ) (task : τ) :
    ∃ actions, ∃ s : ThreadPool κ τ, NoShutdown actions ∧
      runAll step (started config) actions = .ok s ∧ s.caller k = .counting task ∧
      s.mutex = none ∧ (s.threads.length : ℤ) = config.maxThreadNum ∧
      (s.liveNum : ℤ) < config.maxThreadNum ∧
      s.step (.advance k) = .ok (s.moveCaller k (.pushing task)) := by
  have hcore := coreThreads_eq hconfig
  obtain ⟨n, hn⟩ : ∃ n : ℕ, (n : ℤ) = config.maxThreadNum :=
    ⟨config.maxThreadNum.toNat, by omega⟩
  obtain ⟨actions, s, hno, hrun, hs⟩ := exists_idle (n := n) hconfig k task (by omega) hn.le
  obtain ⟨actions', s', hno', hrun', hrest, hconfig', hlength, hlive, hidle⟩ :=
    hs.time_out (by omega)
  have hfull : s'.config.maxThreadNum ≤ s'.threads.length := by rw [hconfig', hlength, hn]
  refine ⟨actions ++ (actions' ++ [.run k task, .advance k]), _, ?_, runAll_append_eq_ok.2
    ⟨s, hrun, runAll_append_eq_ok.2 ⟨s', hrun', runAll_count hrest (hidle k)⟩⟩,
    caller_moveCaller_self s' k _, hrest.mutex, ?_, ?_, step_count_full hrest.mutex
      (caller_moveCaller_self s' k _) hfull⟩
  · intro j isNow hmem
    simp only [mem_append, mem_cons, not_mem_nil, or_false, reduceCtorEq] at hmem
    exact hmem.elim (hno j isNow) (hno' j isNow)
  · rw [← hn, ← hlength]
    rfl
  · rw [← hn]
    exact_mod_cast hlive

/-! ## Elasticity -/

/-- **Elasticity.** For a configuration that is available, a call of `Run` that has found no worker
waiting starts a cache thread whenever fewer than `max_thread_num` workers live, in every history of
calls of `Run` and steps of workers, exactly if the core threads leave no room for a cache thread or
nobody calls `Run`. `GetTotalThreadNum` is the number of workers that live on the same condition. -/
theorem elastic_iff [Inhabited τ] (config : PoolConfig)
    (hconfig : config.isAvaliableConfig = true) :
    ((∀ (actions : List (Action κ τ)) (s : ThreadPool κ τ), NoShutdown actions →
        runAll step (started config) actions = .ok s → ∀ k task, s.caller k = .counting task →
          s.mutex = none → (s.liveNum : ℤ) < config.maxThreadNum →
            s.step (.advance k) = .ok (s.moveCaller k (.starting task))) ↔
      (config.maxThreadNum ≤ config.coreThreadNum ∨ IsEmpty κ)) ∧
    ((∀ (actions : List (Action κ τ)) (s : ThreadPool κ τ), NoShutdown actions →
        runAll step (started config) actions = .ok s → s.threads.length = s.liveNum) ↔
      (config.maxThreadNum ≤ config.coreThreadNum ∨ IsEmpty κ)) := by
  have hcore := coreThreads_eq hconfig
  have hsteady : config.maxThreadNum ≤ config.coreThreadNum ∨ IsEmpty κ →
      Nonempty κ → config.maxThreadNum ≤ coreThreads config := by
    rintro (hle | hempty) hcallers
    · omega
    · exact (hempty.false hcallers.some).elim
  have hgrows : ¬(config.maxThreadNum ≤ config.coreThreadNum ∨ IsEmpty κ) →
      config.coreThreadNum < config.maxThreadNum ∧ Nonempty κ := by
    rw [not_or, not_le, not_isEmpty_iff]
    exact id
  refine ⟨⟨fun helastic ↦ ?_, fun hfull ↦ ?_⟩, ⟨fun hcounted ↦ ?_, fun hfull ↦ ?_⟩⟩
  · by_contra hmany
    obtain ⟨hroom, ⟨k⟩⟩ := hgrows hmany
    obtain ⟨actions, s, hno, hrun, hcaller, hmutex, -, hlive, hpush⟩ :=
      exists_timed_out hconfig hroom k (default : τ)
    have hstart := helastic actions s hno hrun k default hcaller hmutex hlive
    have hk := congrArg (fun t ↦ t.caller k) (Except.ok.inj (hpush.symm.trans hstart))
    simp [moveCaller] at hk
  · intro actions s hno hrun k task hcaller hmutex hlive
    have hs := steady_of_runAll (hsteady hfull) hno hrun
    have hmax := hsteady hfull ⟨k⟩
    rw [hs.liveNum_eq] at hlive
    omega
  · by_contra hmany
    obtain ⟨hroom, ⟨k⟩⟩ := hgrows hmany
    obtain ⟨actions, s, hno, hrun, -, -, hlength, hlive, -⟩ :=
      exists_timed_out hconfig hroom k (default : τ)
    have heq := hcounted actions s hno hrun
    omega
  · intro actions s hno hrun
    have hs := steady_of_runAll (hsteady hfull) hno hrun
    rw [hs.liveNum_eq, hs.length]

/-- One core thread and no room for more: the thread waits, and a task is pushed for it. -/
theorem elastic_one_thread :
    let actions : List (Action Unit Unit) :=
      [.work 0, .work 0, .work 0, .run () (), .advance (), .advance ()]
    ∃ s, runAll step (started ⟨1, 1, 10, 100⟩) actions = .ok s ∧ s.threads.length = s.liveNum := by
  intro actions
  have hno : NoShutdown actions := by simp [NoShutdown, actions]
  obtain ⟨s, hs⟩ : ∃ s, runAll step (started ⟨1, 1, 10, 100⟩) actions = .ok s := ⟨_, rfl⟩
  exact ⟨s, hs, (elastic_iff ⟨1, 1, 10, 100⟩ (by decide)).2.2 (Or.inl (by decide)) actions s hno hs⟩

/-- A cache thread executes a task and times out. The next call of `Run` finds no worker waiting
and one of two workers alive, and starts no thread. -/
theorem not_elastic_timed_out :
    ∃ s : ThreadPool Unit Unit, runAll step (started ⟨1, 2, 10, 100⟩)
        [.run () (), .advance (), .advance (), .advance (), .advance (), .advance (),
          .notifyOne () none, .work 1, .work 1, .work 1, .work 1, .work 1, .work 1, .work 1,
          .expire 1, .work 1, .work 1, .run () (), .advance ()] = .ok s ∧
      s.caller () = .counting () ∧ s.mutex = none ∧ s.threads.length = 2 ∧ s.liveNum = 1 ∧
      s.step (.advance ()) = .ok (s.moveCaller () (.pushing ())) :=
  ⟨_, rfl, rfl, rfl, rfl, rfl, rfl⟩

end ThreadPool

end Hlib

end Fishnet
