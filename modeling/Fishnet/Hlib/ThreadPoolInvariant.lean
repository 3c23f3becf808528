import Fishnet.Hlib.ThreadPool

/-!
# What always holds of the thread pool

The invariant of `hlib/thread_pool.h` has one clause for each of the shared things. The mutex has
one holder (`Locked`), and a worker that goes on after the wait has a reason to (`Reasoned`). The
numbers of threads are given out in order, every thread started is in the list or about to be
appended to it (`Listed`), and the loop of `Shutdown` has passed only threads that have terminated
(`Joined`). Every accepted task is somewhere (`Accounts`).

A clause is kept by the workers and by the callers for different reasons, so that each of them is
proved from what `WorkerCase` and `CallerCase` say about the fields it reads.

## Main results

* `ThreadPool.inv_of_runAll`, `ThreadPool.tasks_accounted`
-/

namespace Fishnet

open Function List

namespace Hlib

/-- In `Shutdown`. -/
@[simp] def CallerPlace.inShutdown {τ : Type} : CallerPlace τ → Bool
  | storing _ | notifyingAll | withdrawing | joining _ => true
  | _ => false

namespace ThreadPool

variable {κ τ : Type} {s s' : ThreadPool κ τ} {i : ℕ}

/-! ## What a worker does -/

theorem wakeupPred_iff : s.wakeupPred i = true ↔
    s.isFlagged = true ∨ s.tasks ≠ [] ∨ (s.worker i).state = .stop := by
  simp [wakeupPred, isFlagged, or_assoc]

theorem wakeupPred_moveWorker (i : ℕ) (place : WorkerPlace τ) :
    (s.moveWorker i place).wakeupPred i = s.wakeupPred i := by
  simp [wakeupPred, moveWorker]

theorem WorkerCase.isFlagged_eq (h : WorkerCase s i s') : s'.isFlagged = s.isFlagged := by
  rw [isFlagged, isFlagged, h.sameCallers.isShutdown, h.sameCallers.isShutdownNow]

/-- Without the mutex a worker does not change the queue. -/
theorem WorkerCase.tasks_eq (h : WorkerCase s i s')
    (hplace : (s.worker i).place.isLocked = false) : s'.tasks = s.tasks := by
  cases h with
  | take isTimeout task tasks hproceeding htasks =>
    rw [hproceeding] at hplace
    cases hplace
  | _ => rfl

theorem WorkerCase.place_ne_terminated (h : WorkerCase s i s') :
    (s.worker i).place ≠ .terminated := by
  intro hterminated
  cases h <;> exact absurd (hterminated.symm.trans ‹(s.worker i).place = _›) (by simp)

theorem WorkerCase.tasks (h : WorkerCase s i s') :
    (↑s'.executed : Multiset τ) + (s'.worker i).place.holds + ↑s'.tasks =
      ↑s.executed + (s.worker i).place.holds + ↑s.tasks := by
  cases h with
  | take isTimeout task tasks hplace htasks =>
    simp [hplace, htasks, WorkerPlace.holds, ← Multiset.cons_coe, add_assoc]
  | execute task hplace =>
    simp [moveWorker, hplace, WorkerPlace.holds, ← Multiset.coe_add]
  | wake place hplace hmutex hnew =>
    rcases hnew with rfl | rfl <;> simp [moveWorker, hplace, WorkerPlace.holds]
  | _ => simp [moveWorker, WorkerPlace.holds, ‹(s.worker i).place = _›]

/-! ## The mutex -/

/-- The workers between the test and what follows from it hold the mutex. -/
def Locked (s : ThreadPool κ τ) : Prop :=
  ∀ i, (s.worker i).place.isLocked = true ↔ s.mutex = some i

theorem locked_started (config : PoolConfig) : (started config : ThreadPool κ τ).Locked := by
  intro i
  by_cases hi : i < coreThreads config
  · simp [started, hi, WorkerPlace.isLocked]
  · simp [started, hi, WorkerPlace.isLocked]

/-- What a worker does to the mutex: it takes it, keeps it, releases it, or has no part in it. -/
theorem WorkerCase.mutex (h : WorkerCase s i s') :
    (s.mutex = none ∧ s'.mutex = some i ∧ (s'.worker i).place.isLocked = true) ∨
    (s'.mutex = s.mutex ∧ (s'.worker i).place.isLocked = (s.worker i).place.isLocked) ∨
    ((s.worker i).place.isLocked = true ∧ s'.mutex = none ∧
      (s'.worker i).place.isLocked = false) := by
  cases h with
  | stop hplace hmutex =>
    exact Or.inr (Or.inl ⟨rfl, by simp [moveWorker, hplace, WorkerPlace.isLocked]⟩)
  | lock hplace hmutex => exact Or.inl ⟨hmutex, rfl, by simp [WorkerPlace.isLocked]⟩
  | testTrue hplace hpred =>
    exact Or.inr (Or.inl ⟨rfl, by simp [moveWorker, hplace, WorkerPlace.isLocked]⟩)
  | testFalse hplace hpred =>
    exact Or.inr (Or.inl ⟨rfl, by simp [moveWorker, hplace, WorkerPlace.isLocked]⟩)
  | block hplace =>
    exact Or.inr (Or.inr ⟨by rw [hplace]; rfl, rfl, by simp [moveWorker, WorkerPlace.isLocked]⟩)
  | wake place hplace hmutex hnew =>
    refine Or.inl ⟨hmutex, rfl, ?_⟩
    rcases hnew with rfl | rfl <;> simp [moveWorker, WorkerPlace.isLocked]
  | testExpired hplace =>
    exact Or.inr (Or.inl ⟨rfl, by simp [moveWorker, hplace, WorkerPlace.isLocked]⟩)
  | exit isTimeout state hplace =>
    exact Or.inr (Or.inr ⟨by rw [hplace]; rfl, rfl, by simp [WorkerPlace.isLocked]⟩)
  | take isTimeout task tasks hplace htasks =>
    exact Or.inr (Or.inr ⟨by rw [hplace]; rfl, rfl, by simp [WorkerPlace.isLocked]⟩)
  | execute task hplace =>
    exact Or.inr (Or.inl ⟨rfl, by simp [moveWorker, hplace, WorkerPlace.isLocked]⟩)

theorem Locked.work (h : s.Locked) (hcase : WorkerCase s i s') : s'.Locked := by
  intro j
  by_cases hj : j = i
  · subst hj
    rcases hcase.mutex with ⟨-, hmutex, hplace⟩ | ⟨hmutex, hplace⟩ | ⟨-, hmutex, hplace⟩
    · simp [hmutex, hplace]
    · rw [hmutex, hplace]
      exact h j
    · simp [hmutex, hplace]
  · rw [hcase.worker_of_ne hj, h j]
    rcases hcase.mutex with ⟨hfree, hmutex, -⟩ | ⟨hmutex, -⟩ | ⟨hheld, hmutex, -⟩
    · simp [hfree, hmutex, Ne.symm hj]
    · rw [hmutex]
    · simp [(h i).mp hheld, hmutex, Ne.symm hj]

variable [DecidableEq κ] {k : κ} {a : Action κ τ}

theorem CallerCase.mutex_eq (h : CallerCase s k s') : s'.mutex = s.mutex := by
  cases h with
  | storeFlag isNow hcaller => cases isNow <;> rfl
  | _ => rfl

theorem CallerCase.worker_of_place (h : CallerCase s k s') (hfresh : s.Fresh)
    (hi : (s.worker i).place ≠ .absent) : s'.worker i = s.worker i := by
  rcases h.worker_eq with ⟨hworker, -⟩ | ⟨hworker, -⟩
  · rw [hworker]
  · rw [hworker, update_of_ne]
    rintro rfl
    exact hi (hfresh _ le_rfl)

theorem Locked.step (h : s.Locked) (hfresh : s.Fresh) (hs : s.step a = .ok s') : s'.Locked := by
  cases step_cases hs with
  | caller k hcase =>
    intro i
    rw [hcase.mutex_eq, ← h i]
    rcases hcase.worker_eq with ⟨hworker, -⟩ | ⟨hworker, -⟩
    · rw [hworker]
    · rw [hworker]
      by_cases hi : i = s.nextThreadId
      · rw [hi, update_self, hfresh _ le_rfl]
        rfl
      · rw [update_of_ne hi]
  | worker i hcase => exact h.work hcase

/-! ## After the test -/

/-- A worker that goes on has a reason to. -/
def Reasoned (s : ThreadPool κ τ) : Prop :=
  ∀ i, (s.worker i).place = .proceeding false → s.wakeupPred i = true

theorem CallerCase.wakeupPred (h : CallerCase s k s') (hworker : s'.worker i = s.worker i)
    (hs : s.wakeupPred i = true) : s'.wakeupPred i = true := by
  rw [wakeupPred_iff] at hs
  rw [wakeupPred_iff, hworker]
  cases h with
  | push task hcaller hmutex => exact Or.inr (Or.inl (append_ne_nil_of_right_ne_nil _ nofun))
  | storeFlag isNow hcaller => exact Or.inl (isFlagged_storeFlag k isNow)
  | _ => exact hs

theorem Reasoned.step (h : s.Reasoned) (hlocked : s.Locked) (hs : s.step a = .ok s') :
    s'.Reasoned := by
  intro j hj
  cases step_cases hs with
  | caller k hcase =>
    have hworker : s'.worker j = s.worker j := by
      rcases hcase.worker_eq with ⟨heq, -⟩ | ⟨heq, -⟩
      · rw [heq]
      · rw [heq] at hj ⊢
        by_cases hnext : j = s.nextThreadId
        · rw [hnext, update_self] at hj
          cases hj
        · rw [update_of_ne hnext]
    exact hcase.wakeupPred hworker (h j (hworker ▸ hj))
  | worker i hcase =>
    by_cases hji : j = i
    · subst hji
      cases hcase with
      | testTrue hplace hpred => rwa [wakeupPred_moveWorker]
      | testExpired hplace =>
        rw [wakeupPred_moveWorker]
        simpa [moveWorker] using hj
      | wake place hplace hmutex hnew => rcases hnew with rfl | rfl <;> simp [moveWorker] at hj
      | _ => simp [moveWorker] at hj
    · -- `j` holds the mutex, so `i` does not
      rw [hcase.worker_of_ne hji] at hj
      have hmutex : s.mutex = some j := (hlocked j).mp (by rw [hj]; rfl)
      have hfree : (s.worker i).place.isLocked = false := by
        by_contra hheld
        have hmutex' : s.mutex = some i := (hlocked i).mp (Bool.not_eq_false _ ▸ hheld)
        rw [hmutex] at hmutex'
        exact hji (Option.some.inj hmutex')
      have hpred : s.wakeupPred j = true := h j hj
      rw [wakeupPred_iff] at hpred ⊢
      rwa [hcase.isFlagged_eq, hcase.tasks_eq hfree, hcase.worker_of_ne hji]

/-! ## The threads in the list -/

/-- Every thread started is in the list, or about to be appended to it. -/
def Listed (s : ThreadPool κ τ) : Prop :=
  ∀ i < s.nextThreadId, i ∈ s.threads ∨ ∃ k task, s.caller k = .appending task i

omit [DecidableEq κ] in
theorem listed_started (config : PoolConfig) : (started config : ThreadPool κ τ).Listed :=
  fun _ hi ↦ Or.inl (mem_range.mpr hi)

theorem CallerCase.threads_prefix (h : CallerCase s k s') : s.threads <+: s'.threads := by
  cases h with
  | appendThread task id hcaller => exact prefix_append _ _
  | storeFlag isNow hcaller => cases isNow <;> exact prefix_rfl
  | _ => exact prefix_rfl

theorem CallerCase.mem_threads (h : CallerCase s k s') {task : τ} {id : ℕ}
    (hcaller : s.caller k = .appending task id) : id ∈ s'.threads := by
  cases h with
  | appendThread task' id' hcaller' =>
    rw [hcaller] at hcaller'
    cases hcaller'
    exact mem_append_right _ (mem_singleton_self id)
  | _ => exact absurd (hcaller.symm.trans ‹s.caller k = _›) (by simp)

theorem Listed.step (h : s.Listed) (hs : s.step a = .ok s') : s'.Listed := by
  intro i hi
  cases step_cases hs with
  | caller k hcase =>
    by_cases hold : i < s.nextThreadId
    · rcases h i hold with hmem | ⟨j, task, hj⟩
      · exact Or.inl (hcase.threads_prefix.subset hmem)
      · by_cases hjk : j = k
        · subst hjk
          exact Or.inl (hcase.mem_threads hj)
        · exact Or.inr ⟨j, task, (hcase.caller_of_ne hjk).trans hj⟩
    · -- the thread has just been started
      cases hcase with
      | addThread task hcaller =>
        have hnext : i = s.nextThreadId := by
          have hi' : i < s.nextThreadId + 1 := hi
          omega
        exact Or.inr ⟨k, task, by simp [addThread, moveCaller, hnext]⟩
      | storeFlag isNow hcaller => cases isNow <;> exact absurd hi hold
      | _ => exact absurd hi hold
  | worker j hcase =>
    obtain ⟨hcaller, hthreads, hnext, -⟩ := hcase.sameCallers
    rw [hnext] at hi
    rw [hthreads, hcaller]
    exact h i hi

/-- The loop of `Shutdown` has passed only threads that have terminated. -/
def Joined (s : ThreadPool κ τ) : Prop :=
  ∀ k position, s.caller k = .joining position → position ≤ s.threads.length ∧
    ∀ id ∈ s.threads.take position, (s.worker id).place = .terminated

/-- How a caller comes to a position in the list. -/
theorem CallerCase.of_joining (h : CallerCase s k s') {position : ℕ}
    (hk : s'.caller k = .joining position) :
    (position = 0 ∧ s'.isAvailable = false) ∨
      ∃ passed id, position = passed + 1 ∧ s.caller k = .joining passed ∧
        s.threads[passed]? = some id ∧ (s.worker id).place = .terminated := by
  cases h with
  | withdraw hcaller => exact Or.inl ⟨by simpa [moveCaller, eq_comm] using hk, rfl⟩
  | shutdown isNow hcaller =>
    cases havailable : s.isAvailable with
    | true => simp [ThreadPool.shutdown, moveCaller, havailable] at hk
    | false =>
      refine Or.inl ⟨?_, havailable⟩
      simpa [ThreadPool.shutdown, moveCaller, havailable, eq_comm] using hk
  | join passed id hcaller hthread hplace =>
    have hposition : position = passed + 1 := by simpa [moveCaller, eq_comm] using hk
    exact Or.inr ⟨passed, id, hposition, hcaller, hthread, hplace⟩
  | load task place hcaller hplace => rcases hplace with rfl | rfl <;> simp [moveCaller] at hk
  | count task place hcaller hplace => rcases hplace with rfl | rfl <;> simp [moveCaller] at hk
  | storeFlag isNow hcaller => cases isNow <;> simp [ThreadPool.storeFlag, moveCaller] at hk
  | reject task hcaller => exact absurd (hcaller.symm.trans hk) (by simp)
  | _ => simp [ThreadPool.addThread, moveCaller] at hk

theorem Joined.step (h : s.Joined) (hfresh : s.Fresh) (hs : s.step a = .ok s') : s'.Joined := by
  intro j position hj
  cases step_cases hs with
  | caller k hcase =>
    -- what the loop has passed stays in place and terminated
    have hkeep : ∀ passed ≤ s.threads.length,
        (∀ id ∈ s.threads.take passed, (s.worker id).place = .terminated) →
        passed ≤ s'.threads.length ∧
          ∀ id ∈ s'.threads.take passed, (s'.worker id).place = .terminated := by
      intro passed hle hterminated
      obtain ⟨l, hl⟩ := hcase.threads_prefix
      rw [← hl, take_append_of_le_length hle, length_append]
      refine ⟨Nat.le_add_right_of_le hle, fun id hid ↦ ?_⟩
      rw [hcase.worker_of_place hfresh]
      · exact hterminated id hid
      · rw [hterminated id hid]
        nofun
    by_cases hjk : j = k
    · subst hjk
      rcases hcase.of_joining hj with ⟨rfl, -⟩ | ⟨passed, id, rfl, hcaller, hthread, hplace⟩
      · exact ⟨Nat.zero_le _, fun id hid ↦ by simp at hid⟩
      · obtain ⟨hlt, -⟩ := List.getElem?_eq_some_iff.mp hthread
        refine hkeep (passed + 1) hlt fun id' hid' ↦ ?_
        rw [take_add_one, hthread] at hid'
        rcases mem_append.mp hid' with hid' | hid'
        · exact (h j passed hcaller).2 id' hid'
        · rw [mem_singleton.mp hid']
          exact hplace
    · rw [hcase.caller_of_ne hjk] at hj
      exact hkeep position (h j position hj).1 (h j position hj).2
  | worker i hcase =>
    rw [hcase.sameCallers.caller] at hj
    rw [hcase.sameCallers.threads]
    refine ⟨(h j position hj).1, fun id hid ↦ ?_⟩
    have hterminated := (h j position hj).2 id hid
    rw [hcase.worker_of_ne]
    · exact hterminated
    · rintro rfl
      exact hcase.place_ne_terminated hterminated

/-! ## The callers -/

/-- When `Shutdown` joins, the pool is not available any more. -/
def Withdrawn (s : ThreadPool κ τ) : Prop :=
  ∀ k position, s.caller k = .joining position → s.isAvailable = false

theorem CallerCase.isAvailable (h : CallerCase s k s') (hs : s.isAvailable = false) :
    s'.isAvailable = false := by
  cases h with
  | withdraw hcaller => rfl
  | storeFlag isNow hcaller => cases isNow <;> exact hs
  | _ => exact hs

theorem Withdrawn.step (h : s.Withdrawn) (hs : s.step a = .ok s') : s'.Withdrawn := by
  intro j position hj
  cases step_cases hs with
  | caller k hcase =>
    by_cases hjk : j = k
    · subst hjk
      rcases hcase.of_joining hj with ⟨-, havailable⟩ | ⟨passed, -, -, hcaller, -, -⟩
      · exact havailable
      · exact hcase.isAvailable (h j passed hcaller)
    · rw [hcase.caller_of_ne hjk] at hj
      exact hcase.isAvailable (h j position hj)
  | worker i hcase =>
    rw [hcase.sameCallers.caller] at hj
    rw [hcase.sameCallers.isAvailable]
    exact h j position hj

/-- At any time only finitely many threads use the pool. -/
def FewCallers (s : ThreadPool κ τ) : Prop := {k | s.caller k ≠ .idle}.Finite

theorem FewCallers.step (h : s.FewCallers) (hs : s.step a = .ok s') : s'.FewCallers := by
  cases step_cases hs with
  | caller k hcase =>
    refine (h.insert k).subset fun j hj ↦ ?_
    by_cases hjk : j = k
    · exact Or.inl hjk
    · refine Or.inr fun hidle ↦ hj ?_
      rw [hcase.caller_of_ne hjk, hidle]
  | worker i hcase =>
    rw [FewCallers, hcase.sameCallers.caller]
    exact h

/-- The calls of `Shutdown` that have not returned are among those made. -/
structure Calls (s : ThreadPool κ τ) : Prop where
  one : ∀ k, (s.caller k).inShutdown = true → 1 ≤ s.shutdowns.length
  two : ∀ j k, j ≠ k → (s.caller j).inShutdown = true → (s.caller k).inShutdown = true →
    2 ≤ s.shutdowns.length

/-- A thread is in `Shutdown` because it was, or it has just called it. -/
theorem CallerCase.inShutdown (h : CallerCase s k s')
    (hs : (s'.caller k).inShutdown = true) :
    (s.caller k).inShutdown = true ∧ s'.shutdowns = s.shutdowns ∨
      s'.shutdowns.length = s.shutdowns.length + 1 := by
  cases h with
  | shutdown isNow hcaller => exact Or.inr (by simp [ThreadPool.shutdown])
  | load task place hcaller hplace =>
    rcases hplace with rfl | rfl <;> simp [moveCaller] at hs
  | count task place hcaller hplace =>
    rcases hplace with rfl | rfl <;> simp [moveCaller] at hs
  | storeFlag isNow hcaller =>
    exact Or.inl ⟨by rw [hcaller]; rfl, by cases isNow <;> rfl⟩
  | notifyAll hcaller => exact Or.inl ⟨by rw [hcaller]; rfl, rfl⟩
  | withdraw hcaller => exact Or.inl ⟨by rw [hcaller]; rfl, rfl⟩
  | join position id hcaller hthread hplace => exact Or.inl ⟨by rw [hcaller]; rfl, rfl⟩
  | reject task hcaller => exact Or.inl ⟨hs, rfl⟩
  | _ => simp [ThreadPool.addThread, moveCaller] at hs

theorem CallerCase.length_shutdowns_le (h : CallerCase s k s') :
    s.shutdowns.length ≤ s'.shutdowns.length := by
  cases h with
  | shutdown isNow hcaller => simp [ThreadPool.shutdown]
  | storeFlag isNow hcaller => cases isNow <;> exact le_rfl
  | _ => exact le_rfl

theorem Calls.step (h : s.Calls) (hs : s.step a = .ok s') : s'.Calls := by
  cases step_cases hs with
  | caller k hcase =>
    have hle := hcase.length_shutdowns_le
    -- the other callers have not moved
    have hother : ∀ j, j ≠ k → (s'.caller j).inShutdown = true → (s.caller j).inShutdown = true :=
      fun j hj hin ↦ by rwa [hcase.caller_of_ne hj] at hin
    have hpair : ∀ j, j ≠ k → (s'.caller j).inShutdown = true → (s'.caller k).inShutdown = true →
        2 ≤ s'.shutdowns.length := by
      intro j hj hin hk
      rcases hcase.inShutdown hk with ⟨hk', -⟩ | hmore
      · exact le_trans (h.two j k hj (hother j hj hin) hk') hle
      · have hone := h.one j (hother j hj hin)
        omega
    refine ⟨fun j hj ↦ ?_, fun j l hjl hj hl ↦ ?_⟩
    · by_cases hjk : j = k
      · subst hjk
        rcases hcase.inShutdown hj with ⟨hj', -⟩ | hmore
        · exact le_trans (h.one j hj') hle
        · omega
      · exact le_trans (h.one j (hother j hjk hj)) hle
    · by_cases hjk : j = k
      · subst hjk
        exact hpair l (Ne.symm hjl) hl hj
      · by_cases hlk : l = k
        · subst hlk
          exact hpair j hjk hj hl
        · exact le_trans (h.two j l hjl (hother j hjk hj) (hother l hlk hl)) hle
  | worker i hcase =>
    obtain ⟨hcaller, -, -, -, -, -, -, hshutdowns⟩ := hcase.sameCallers
    refine ⟨fun j ↦ ?_, fun j l ↦ ?_⟩
    · rw [hcaller, hshutdowns]
      exact h.one j
    · rw [hcaller, hshutdowns]
      exact h.two j l

/-! ## Every task is somewhere -/

/-- What the workers hold. -/
def held (s : ThreadPool κ τ) : Multiset τ :=
  heldBy (Finset.range s.nextThreadId) s.worker fun w ↦ w.place.holds

/-- Every accepted task is in the queue, with a worker, or has been executed. -/
def Accounts (s : ThreadPool κ τ) : Prop :=
  (↑s.accepted : Multiset τ) = ↑s.executed + s.held + ↑s.tasks

omit [DecidableEq κ] in
theorem accounts_started (config : PoolConfig) : (started config : ThreadPool κ τ).Accounts := by
  have hheld : (started config : ThreadPool κ τ).held = 0 := by
    refine heldBy_eq_zero fun i hi ↦ ?_
    have hi' : i < coreThreads config := Finset.mem_range.mp hi
    simp [started, hi', WorkerPlace.holds]
  rw [Accounts, hheld]
  rfl

omit [DecidableEq κ] in
theorem WorkerCase.accounts (h : WorkerCase s i s') (hfresh : s.Fresh)
    (hs : s.Accounts) : s'.Accounts := by
  have hi : i ∈ Finset.range s.nextThreadId := by
    refine Finset.mem_range.mpr (not_le.mp fun hle ↦ ?_)
    exact h.place_ne_absent (hfresh i hle)
  have hworker : s'.worker = update s.worker i (s'.worker i) := by
    funext j
    by_cases hj : j = i
    · rw [hj, update_self]
    · rw [update_of_ne hj, h.worker_of_ne hj]
  have hheld : s'.held + (s.worker i).place.holds = s.held + (s'.worker i).place.holds := by
    rw [held, h.sameCallers.nextThreadId, hworker]
    exact (heldBy_update hi).trans (by rw [update_self]; rfl)
  rw [Accounts, h.sameCallers.accepted, hs]
  -- both sides together with what `i` held before
  refine add_right_cancel (b := (s.worker i).place.holds) ?_
  calc ↑s.executed + s.held + ↑s.tasks + (s.worker i).place.holds
      = (↑s.executed + (s.worker i).place.holds + ↑s.tasks) + s.held := by abel
    _ = (↑s'.executed + (s'.worker i).place.holds + ↑s'.tasks) + s.held := by rw [h.tasks]
    _ = ↑s'.executed + (s.held + (s'.worker i).place.holds) + ↑s'.tasks := by abel
    _ = ↑s'.executed + (s'.held + (s.worker i).place.holds) + ↑s'.tasks := by rw [hheld]
    _ = ↑s'.executed + s'.held + ↑s'.tasks + (s.worker i).place.holds := by abel

/-- A thread that has just been started holds nothing. -/
theorem CallerCase.held_eq (h : CallerCase s k s') : s'.held = s.held := by
  rcases h.worker_eq with ⟨hworker, hnext⟩ | ⟨hworker, hnext⟩
  · rw [held, held, hworker, hnext]
  · rw [held, held, hworker, hnext, heldBy, Finset.sum_range_succ, update_self]
    refine (add_zero _).trans (Finset.sum_congr rfl fun i hi ↦ ?_)
    rw [update_of_ne (Finset.mem_range.mp hi).ne]

theorem CallerCase.accounts (h : CallerCase s k s') (hs : s.Accounts) : s'.Accounts := by
  have hnew : ∃ l, s'.accepted = s.accepted ++ l ∧ s'.tasks = s.tasks ++ l ∧
      s'.executed = s.executed := by
    cases h with
    | push task hcaller hmutex => exact ⟨[task], rfl, rfl, rfl⟩
    | storeFlag isNow hcaller =>
      cases isNow <;> exact ⟨[], (append_nil _).symm, (append_nil _).symm, rfl⟩
    | _ => exact ⟨[], (append_nil _).symm, (append_nil _).symm, rfl⟩
  obtain ⟨l, haccepted, htasks, hexecuted⟩ := hnew
  rw [Accounts, haccepted, htasks, hexecuted, h.held_eq, ← Multiset.coe_add, ← Multiset.coe_add, hs]
  exact add_assoc _ _ _

theorem Accounts.step (h : s.Accounts) (hfresh : s.Fresh) (hs : s.step a = .ok s') :
    s'.Accounts := by
  cases step_cases hs with
  | caller k hcase => exact hcase.accounts h
  | worker i hcase => exact hcase.accounts hfresh h

/-! ## The critical section ends -/

omit [DecidableEq κ] in
/-- A worker that goes on comes to the end of its critical section. -/
theorem exists_proceed (h : s.Reasoned) {i : ℕ} {isTimeout : Bool}
    (hplace : (s.worker i).place = .proceeding isTimeout) :
    ∃ s', s.proceed i isTimeout = .ok s' := by
  simp only [proceed]
  by_cases hexit : (if isTimeout then .stop else (s.worker i).state) = .stop ∨
      (s.isShutdown && s.tasks.isEmpty) ∨ s.isShutdownNow
  · rw [if_pos hexit]
    exact ⟨_, rfl⟩
  · rw [if_neg hexit]
    -- the reason it has is a task
    cases htasks : s.tasks with
    | cons task tasks => exact ⟨_, rfl⟩
    | nil =>
      simp only [htasks, isEmpty_nil, Bool.and_true, not_or] at hexit
      obtain ⟨hstate, hshutdown, hnow⟩ := hexit
      cases isTimeout with
      | true => exact absurd rfl hstate
      | false =>
        have hpred := wakeupPred_iff.mp (h i hplace)
        simp_all [isFlagged]

omit [DecidableEq κ] in
theorem exists_work (h : s.Reasoned) {i : ℕ} (hlocked : (s.worker i).place.isLocked = true) :
    ∃ s', s.work i = .ok s' := by
  cases hplace : (s.worker i).place with
  | testing => exact ⟨_, by simp only [work, hplace]; rfl⟩
  | blocking => exact ⟨_, by simp only [work, hplace]; rfl⟩
  | expired => exact ⟨_, by simp only [work, hplace]; rfl⟩
  | proceeding isTimeout =>
    obtain ⟨s', hs'⟩ := exists_proceed h hplace
    exact ⟨s', by simpa only [work, hplace] using attempt_eq_ok.mpr ⟨trivial, hs'⟩⟩
  | _ => simp [hplace, WorkerPlace.isLocked] at hlocked

/-! ## The invariant -/

structure Inv (s : ThreadPool κ τ) : Prop where
  fresh : s.Fresh
  locked : s.Locked
  reasoned : s.Reasoned
  listed : s.Listed
  joined : s.Joined
  withdrawn : s.Withdrawn
  fewCallers : s.FewCallers
  calls : s.Calls
  accounts : s.Accounts

omit [DecidableEq κ] in
theorem inv_started (config : PoolConfig) : (started config : ThreadPool κ τ).Inv where
  fresh := fresh_started config
  locked := locked_started config
  reasoned i hi := by
    by_cases hcore : i < coreThreads config
    · simp [started, hcore] at hi
    · simp [started, hcore] at hi
  listed := listed_started config
  joined k position hk := by cases hk
  withdrawn k position hk := by cases hk
  fewCallers := by
    have hempty : {k : κ | (started config : ThreadPool κ τ).caller k ≠ .idle} = ∅ :=
      Set.eq_empty_of_forall_notMem fun k hk ↦ hk rfl
    rw [FewCallers, hempty]
    exact Set.finite_empty
  calls := ⟨nofun, nofun⟩
  accounts := accounts_started config

theorem Inv.step (h : s.Inv) (hs : s.step a = .ok s') : s'.Inv where
  fresh := h.fresh.step hs
  locked := h.locked.step h.fresh hs
  reasoned := h.reasoned.step h.locked hs
  listed := h.listed.step hs
  joined := h.joined.step h.fresh hs
  withdrawn := h.withdrawn.step hs
  fewCallers := h.fewCallers.step hs
  calls := h.calls.step hs
  accounts := h.accounts.step h.fresh hs

theorem inv_of_runAll {as : List (Action κ τ)} (h : s.Inv) (hrun : runAll step s as = .ok s') :
    s'.Inv :=
  runAll_invariant (fun _ _ _ h hs ↦ h.step hs) h hrun

/-- **No task is lost, made up or executed twice**, however the calls interleave with the workers.
At most one worker is in the critical section, and it goes on: if it takes a task, there is one.
`Shutdown` passes only threads that have terminated. -/
theorem tasks_accounted {config : PoolConfig} {as : List (Action κ τ)}
    (hrun : runAll step (started config) as = .ok s) :
    (↑s.accepted : Multiset τ) = ↑s.executed + s.held + ↑s.tasks ∧
      (∀ i, (s.worker i).place.isLocked = true → (∃ s', s.work i = .ok s') ∧
        ∀ j, (s.worker j).place.isLocked = true → i = j) ∧
      ∀ k position, s.caller k = .joining position →
        ∀ id ∈ s.threads.take position, (s.worker id).place = .terminated := by
  have h := inv_of_runAll (inv_started config) hrun
  refine ⟨h.accounts, fun i hi ↦ ⟨exists_work h.reasoned hi, fun j hj ↦ ?_⟩,
    fun k position hk ↦ (h.joined k position hk).2⟩
  exact Option.some.inj (((h.locked i).mp hi).symm.trans ((h.locked j).mp hj))

/-- A worker has taken the only task. -/
theorem tasks_accounted_held :
    ∃ s : ThreadPool Unit ℕ,
      runAll step (started oneThread) [.run () 7, .advance (), .advance (), .advance (),
        .notifyOne () none, .work 0, .work 0, .work 0] = .ok s ∧
      (s.accepted, s.executed, s.tasks) = ([7], [], []) ∧ s.held = {7} := by
  refine exists_ok_of_map (fun s ↦ (s.accepted, s.executed, s.tasks)) ([7], [], [])
    (by decide +kernel) fun s hs hobserved ↦ ⟨hobserved, ?_⟩
  have haccounts := (tasks_accounted hs).1
  simp only [Prod.mk.injEq] at hobserved
  rw [hobserved.1, hobserved.2.1, hobserved.2.2] at haccounts
  simpa using haccounts.symm

end ThreadPool

end Hlib

end Fishnet
