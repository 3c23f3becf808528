import Fishnet.Hlib.ThreadPoolInvariant

/-!
# What a graceful shutdown leaves behind

`Shutdown()` returns when the threads in the list have terminated. By then the workers have found
the queue empty, but nothing keeps a call of `Run` that has passed its check from pushing a task
afterwards. Such a task is accepted, and nobody is left to execute it.

## The condition

Take the state in which the one `Shutdown()` returns. All accepted tasks will have been executed
when all calls have returned, exactly if no call of `Run` is between its check and its push, and the
queue is empty.

One direction is an invariant: then no thread is left, and `Run` rejects every task (`Quiet`). For
the other, the calls that are left can all return while no worker executes anything (`Finishes`), so
that what is pending or queued is not executed.

## Main results

* `ThreadPool.graceful_shutdown_iff`
-/

namespace Fishnet

open Finset

namespace Hlib

/-- The number of tasks that the caller will still push. -/
@[simp] def CallerPlace.due {τ : Type} (place : CallerPlace τ) : ℕ := place.pending.toList.length

/-- How far `Run` is from its return. -/
@[simp] def CallerPlace.rank {τ : Type} : CallerPlace τ → ℕ
  | checked _ => 6
  | counting _ => 5
  | starting _ => 4
  | appending _ _ => 3
  | pushing _ => 2
  | notifying => 1
  | _ => 0

namespace ThreadPool

variable {κ τ : Type} {s s' : ThreadPool κ τ} {k : κ} {a : Action κ τ}

/-! ## Nothing is left -/

/-- No thread is left, and no task is coming. -/
structure Quiet (s : ThreadPool κ τ) : Prop where
  isAvailable : s.isAvailable = false
  pending : ∀ k, (s.caller k).pending = none
  tasks : s.tasks = []
  workers : ∀ i, (s.worker i).place = .absent ∨ (s.worker i).place = .terminated

theorem Quiet.perm (h : s.Quiet) (haccounts : s.Accounts) : s.executed.Perm s.accepted := by
  have hheld : s.held = 0 := by
    refine heldBy_eq_zero fun i _ ↦ ?_
    rcases h.workers i with hplace | hplace <;> rw [hplace] <;> rfl
  have haccounts' : (↑s.accepted : Multiset τ) = ↑s.executed := by
    rw [haccounts, hheld, h.tasks, add_zero]
    exact add_zero _
  exact (Multiset.coe_eq_coe.mp haccounts').symm

theorem Accounts.length_eq (h : s.Accounts) :
    s.accepted.length = s.executed.length + s.held.card + s.tasks.length := by
  have hcard := congrArg Multiset.card h
  simpa using hcard

/-- The loop of `Shutdown` is at its end, and no call of `Run` is about to push. -/
theorem Inv.workers_of_joining (h : s.Inv) {k : κ} {position : ℕ}
    (hk : s.caller k = .joining position) (hend : s.threads.length ≤ position)
    (hpending : ∀ j, (s.caller j).pending = none) (i : ℕ) :
    (s.worker i).place = .absent ∨ (s.worker i).place = .terminated := by
  by_cases hi : i < s.nextThreadId
  · rcases h.listed i hi with hmem | ⟨j, task, hj⟩
    · refine Or.inr ((h.joined k position hk).2 i ?_)
      rwa [List.take_of_length_le hend]
    · have hnone := hpending j
      rw [hj] at hnone
      cases hnone
  · exact Or.inl (h.fresh i (not_lt.mp hi))

/-! ## The critical section of a worker -/

theorem WorkerCase.executed_eq {i : ℕ} (h : WorkerCase s i s')
    (hplace : (s.worker i).place.isLocked = true) : s'.executed = s.executed := by
  cases h with
  | execute task hrunning =>
    rw [hrunning] at hplace
    cases hplace
  | _ => rfl

/-- How many steps a worker is from the end of its critical section. -/
def lockRank : WorkerPlace τ → ℕ
  | .testing | .expired => 2
  | .blocking | .proceeding _ => 1
  | _ => 0

theorem WorkerCase.lockRank_lt {i : ℕ} (h : WorkerCase s i s')
    (hlocked : (s.worker i).place.isLocked = true) :
    lockRank (s'.worker i).place < lockRank (s.worker i).place := by
  cases h with
  | testTrue hplace hpred => simp [moveWorker, hplace, lockRank]
  | testFalse hplace hpred => simp [moveWorker, hplace, lockRank]
  | testExpired hplace => simp [moveWorker, hplace, lockRank]
  | block hplace => simp [moveWorker, hplace, lockRank]
  | exit isTimeout state hplace => simp [hplace, lockRank]
  | take isTimeout task tasks hplace htasks => simp [hplace, lockRank]
  | stop hplace hmutex => simp [hplace, WorkerPlace.isLocked] at hlocked
  | lock hplace hmutex => simp [hplace, WorkerPlace.isLocked] at hlocked
  | wake place hplace hmutex hnew => simp [hplace, WorkerPlace.isLocked] at hlocked
  | execute task hplace => simp [hplace, WorkerPlace.isLocked] at hlocked

theorem SameCallers.refl (s : ThreadPool κ τ) : SameCallers s s :=
  ⟨rfl, rfl, rfl, rfl, rfl, rfl, rfl, rfl⟩

theorem SameCallers.trans {u : ThreadPool κ τ} (h : SameCallers s s') (h' : SameCallers s' u) :
    SameCallers s u where
  caller := h'.caller.trans h.caller
  threads := h'.threads.trans h.threads
  nextThreadId := h'.nextThreadId.trans h.nextThreadId
  isAvailable := h'.isAvailable.trans h.isAvailable
  isShutdown := h'.isShutdown.trans h.isShutdown
  isShutdownNow := h'.isShutdownNow.trans h.isShutdownNow
  accepted := h'.accepted.trans h.accepted
  shutdowns := h'.shutdowns.trans h.shutdowns

/-! ## Steps of a quiet pool -/

variable [DecidableEq κ]

/-- A caller that is not about to push, in a pool that is not available. -/
theorem CallerCase.of_pending_eq_none (h : CallerCase s k s') (havailable : s.isAvailable = false)
    (hk : (s.caller k).pending = none) :
    (s'.caller k).pending = none ∧ s'.tasks = s.tasks ∧ s'.worker = s.worker := by
  cases h with
  | reject task hcaller => exact ⟨hk, rfl, rfl⟩
  | check task hcaller hopen =>
    rw [havailable] at hopen
    cases hopen
  | load task place hcaller hplace => simp [hcaller] at hk
  | count task place hcaller hplace => simp [hcaller] at hk
  | addThread task hcaller => simp [hcaller] at hk
  | appendThread task id hcaller => simp [hcaller] at hk
  | push task hcaller hmutex => simp [hcaller] at hk
  | shutdown isNow hcaller =>
    exact ⟨by simp [ThreadPool.shutdown, moveCaller, havailable], rfl, rfl⟩
  | storeFlag isNow hcaller =>
    cases isNow <;>
      exact ⟨by simp [ThreadPool.storeFlag, moveCaller], rfl, rfl⟩
  | _ => exact ⟨by simp [moveCaller], rfl, rfl⟩

theorem Quiet.step (h : s.Quiet) (hs : s.step a = .ok s') : s'.Quiet := by
  cases step_cases hs with
  | caller k hcase =>
    obtain ⟨hk, htasks, hworker⟩ := hcase.of_pending_eq_none h.isAvailable (h.pending k)
    refine ⟨hcase.isAvailable h.isAvailable, fun j ↦ ?_, htasks.trans h.tasks, ?_⟩
    · by_cases hjk : j = k
      · rw [hjk, hk]
      · rw [hcase.caller_of_ne hjk, h.pending j]
    · rw [hworker]
      exact h.workers
  | worker i hcase =>
    rcases h.workers i with habsent | hterminated
    · exact absurd habsent hcase.place_ne_absent
    · exact absurd hterminated hcase.place_ne_terminated

/-! ## All calls return -/

/-- The mutex can be released without the execution of a task. -/
theorem exists_release (h : s.Inv) :
    ∃ as t, runAll step s as = .ok t ∧ t.mutex = none ∧ SameCallers s t ∧
      t.executed = s.executed := by
  cases hmutex : s.mutex with
  | none => exact ⟨[], s, rfl, hmutex, .refl s, rfl⟩
  | some i =>
    -- the holder goes on until it has released it
    induction hrank : lockRank (s.worker i).place using Nat.strong_induction_on generalizing s with
    | _ n ih =>
      have hlocked : (s.worker i).place.isLocked = true := (h.locked i).mpr hmutex
      obtain ⟨s', hwork⟩ := exists_work h.reasoned hlocked
      have hcase : WorkerCase s i s' := work_cases hwork
      have hs : s.step (.work i) = .ok s' := hwork
      have hexecuted : s'.executed = s.executed := hcase.executed_eq hlocked
      cases hmutex' : s'.mutex with
      | none =>
        exact ⟨[.work i], s', runAll_cons_eq_ok.mpr ⟨s', hs, rfl⟩, hmutex', hcase.sameCallers,
          hexecuted⟩
      | some j =>
        have hj : j = i := by
          rcases hcase.mutex with ⟨hfree, -, -⟩ | ⟨hsame, -⟩ | ⟨-, hnone, -⟩
          · rw [hmutex] at hfree
            cases hfree
          · rw [hmutex, hmutex'] at hsame
            exact Option.some.inj hsame
          · rw [hmutex'] at hnone
            cases hnone
        subst hj
        obtain ⟨as, t, hrun, hfree, hsame, hexecuted'⟩ :=
          ih _ (hrank ▸ hcase.lockRank_lt hlocked) (h.step hs) hmutex' rfl
        exact ⟨.work j :: as, t, runAll_cons_eq_ok.mpr ⟨s', hs, hrun⟩, hfree,
          hcase.sameCallers.trans hsame, hexecuted'.trans hexecuted⟩

/-- `Run` can go on when the mutex is free. -/
theorem exists_runStep (hmutex : s.mutex = none) (hrank : 0 < (s.caller k).rank) :
    ∃ a s', s.step a = .ok s' ∧ CallerCase s k s' := by
  have hadvance : (∃ s', s.advance k = .ok s') → ∃ a s', s.step a = .ok s' ∧ CallerCase s k s' :=
    fun ⟨s', hs'⟩ ↦ ⟨.advance k, s', hs', advance_cases hs'⟩
  cases hcaller : s.caller k with
  | checked task => exact hadvance ⟨_, by simp only [advance, hcaller]; rfl⟩
  | counting task =>
    exact hadvance ⟨_, by simpa only [advance, hcaller] using guarded_eq_ok.mpr ⟨hmutex, rfl⟩⟩
  | starting task => exact hadvance ⟨_, by simp only [advance, hcaller]; rfl⟩
  | appending task id =>
    exact hadvance ⟨_, by simpa only [advance, hcaller] using guarded_eq_ok.mpr ⟨hmutex, rfl⟩⟩
  | pushing task =>
    exact hadvance ⟨_, by simpa only [advance, hcaller] using guarded_eq_ok.mpr ⟨hmutex, rfl⟩⟩
  | notifying =>
    obtain ⟨wakes, hwakes⟩ := s.cond.exists_canNotify
    refine ⟨.notifyOne k wakes, { s.moveCaller k .idle with cond := s.cond.notifyOne wakes }, ?_,
      .notifyOne wakes hcaller⟩
    simpa only [step, hcaller] using guarded_eq_ok.mpr ⟨hwakes, rfl⟩
  | _ => simp [hcaller] at hrank

/-- A step of `Run`. What it was going to push it has pushed, or is still going to. -/
theorem CallerCase.runStep (h : CallerCase s k s') (hrank : 0 < (s.caller k).rank) :
    (s'.caller k).rank < (s.caller k).rank ∧ (s'.caller k).inShutdown = false ∧
      s'.accepted.length + (s'.caller k).due = s.accepted.length + (s.caller k).due ∧
      s'.executed = s.executed ∧ s'.shutdowns = s.shutdowns := by
  cases h with
  | load task place hcaller hplace =>
    rcases hplace with rfl | rfl <;>
      simp [moveCaller, hcaller]
  | count task place hcaller hplace =>
    rcases hplace with rfl | rfl <;>
      simp [moveCaller, hcaller]
  | addThread task hcaller =>
    simp [ThreadPool.addThread, moveCaller, hcaller]
  | appendThread task id hcaller =>
    simp [moveCaller, hcaller]
  | push task hcaller hmutex =>
    simp [moveCaller, hcaller]
  | notifyOne wakes hcaller =>
    simp [moveCaller, hcaller]
  | _ => simp [‹s.caller k = _›] at hrank

/-- A run in which the callers in `F` return from `Run`, the other callers do not move, and no task
is executed. -/
structure Finishes (F : Finset κ) (s t : ThreadPool κ τ) : Prop where
  reached : ∃ as, runAll step s as = .ok t
  idle : ∀ k ∈ F, t.caller k = .idle
  others : ∀ k ∉ F, t.caller k = s.caller k
  accepted : t.accepted.length = s.accepted.length + ∑ k ∈ F, (s.caller k).due
  executed : t.executed = s.executed
  shutdowns : t.shutdowns = s.shutdowns

theorem exists_finishes_singleton (h : s.Inv) (hk : (s.caller k).inShutdown = false) :
    ∃ t, Finishes {k} s t := by
  induction hn : (s.caller k).rank using Nat.strong_induction_on generalizing s with
  | _ n ih =>
    by_cases hrank : 0 < (s.caller k).rank
    · -- first whoever holds the mutex releases it
      obtain ⟨as, u, hrun, hfree, hsame, hexecuted⟩ := exists_release h
      have hcaller : u.caller k = s.caller k := by rw [hsame.caller]
      obtain ⟨a, v, hstep, hcase⟩ := exists_runStep hfree (hcaller ▸ hrank)
      obtain ⟨hlt, hin, hdue, hexecuted', hshutdowns⟩ := hcase.runStep (hcaller ▸ hrank)
      rw [hcaller] at hlt hdue
      have hv : v.Inv := (inv_of_runAll h hrun).step hstep
      obtain ⟨t, ⟨bs, hrun'⟩, hidle, hothers, haccepted, hexecuted'', hshutdowns'⟩ :=
        ih _ (hn ▸ hlt) hv hin rfl
      refine ⟨t, ⟨as ++ a :: bs, ?_⟩, hidle, fun j hj ↦ ?_, ?_, ?_, ?_⟩
      · exact runAll_append_eq_ok.mpr ⟨u, hrun, runAll_cons_eq_ok.mpr ⟨v, hstep, hrun'⟩⟩
      · have hjk : j ≠ k := fun heq ↦ hj (mem_singleton.mpr heq)
        rw [hothers j hj, hcase.caller_of_ne hjk, hsame.caller]
      · rw [sum_singleton] at haccepted ⊢
        rw [haccepted, hdue, hsame.accepted]
      · rw [hexecuted'', hexecuted', hexecuted]
      · rw [hshutdowns', hshutdowns, hsame.shutdowns]
    · have hidle : s.caller k = .idle := by
        cases hcaller : s.caller k with
        | idle => rfl
        | _ => simp [hcaller] at hk hrank
      refine ⟨s, ⟨[], rfl⟩, fun j hj ↦ ?_, fun _ _ ↦ rfl, ?_, rfl, rfl⟩
      · rw [mem_singleton.mp hj, hidle]
      · rw [sum_singleton, hidle]
        rfl

theorem exists_finishes (h : s.Inv) (F : Finset κ)
    (hF : ∀ k ∈ F, (s.caller k).inShutdown = false) : ∃ t, Finishes F s t := by
  induction F using Finset.induction_on with
  | empty => exact ⟨s, ⟨[], rfl⟩, by simp, fun _ _ ↦ rfl, by simp, rfl, rfl⟩
  | insert k F hk ih =>
    obtain ⟨u, hu⟩ := ih fun j hj ↦ hF j (mem_insert_of_mem hj)
    obtain ⟨as, hrun⟩ := hu.reached
    have hcaller : u.caller k = s.caller k := hu.others k hk
    have hin : (u.caller k).inShutdown = false := by
      rw [hcaller]
      exact hF k (mem_insert_self k F)
    obtain ⟨t, ht⟩ := exists_finishes_singleton (inv_of_runAll h hrun) hin
    obtain ⟨bs, hrun'⟩ := ht.reached
    refine ⟨t, ⟨as ++ bs, runAll_append_eq_ok.mpr ⟨u, hrun, hrun'⟩⟩, fun j hj ↦ ?_, fun j hj ↦ ?_,
      ?_, ht.executed.trans hu.executed, ht.shutdowns.trans hu.shutdowns⟩
    · by_cases hjk : j = k
      · exact ht.idle j (mem_singleton.mpr hjk)
      · rw [ht.others j (notMem_singleton.mpr hjk)]
        exact hu.idle j (mem_of_mem_insert_of_ne hj hjk)
    · rw [mem_insert, not_or] at hj
      rw [ht.others j (notMem_singleton.mpr hj.1), hu.others j hj.2]
    · rw [ht.accepted, sum_singleton, hcaller, hu.accepted, sum_insert hk]
      omega

/-! ## The result -/

/-- **All calls return.** If everything that is accepted has been executed then, nothing was pending
or queued before. -/
theorem Inv.exists_all_return (h : s.Inv) (hin : ∀ j, (s.caller j).inShutdown = false) :
    ∃ as t, runAll ThreadPool.step s as = .ok t ∧ (∀ j, t.caller j = .idle) ∧
      t.shutdowns = s.shutdowns ∧
      (t.executed.Perm t.accepted → (∀ j, (s.caller j).pending = none) ∧ s.tasks = []) := by
  have hmem : ∀ j, j ∈ h.fewCallers.toFinset ↔ s.caller j ≠ .idle := fun j ↦
    Set.Finite.mem_toFinset _
  obtain ⟨t, ht⟩ := exists_finishes h h.fewCallers.toFinset fun j _ ↦ hin j
  obtain ⟨as, hrun⟩ := ht.reached
  refine ⟨as, t, hrun, fun j ↦ ?_, ht.shutdowns, fun hperm ↦ ?_⟩
  · by_cases hj : s.caller j = .idle
    · rw [ht.others j fun hF ↦ (hmem j).mp hF hj, hj]
    · exact ht.idle j ((hmem j).mpr hj)
  · -- what is pending, held or queued is accepted and not executed
    have hlength : t.executed.length = t.accepted.length := hperm.length_eq
    rw [ht.executed, ht.accepted, h.accounts.length_eq] at hlength
    have hdue : ∑ j ∈ h.fewCallers.toFinset, (s.caller j).due = 0 := by omega
    refine ⟨fun j ↦ ?_, List.length_eq_zero_iff.mp (by omega)⟩
    by_cases hj : s.caller j = .idle
    · rw [hj]
      rfl
    · have hzero := sum_eq_zero_iff.mp hdue j ((hmem j).mpr hj)
      rw [CallerPlace.due, List.length_eq_zero_iff] at hzero
      exact Option.toList_eq_nil_iff.mp hzero

/-- If there has been one call of `Shutdown` and it returns, no thread is in `Shutdown`. -/
theorem Inv.inShutdown_moveCaller (h : s.Inv) (hone : s.shutdowns.length ≤ 1)
    (hk : (s.caller k).inShutdown = true) (j : κ) :
    ((s.moveCaller k .idle).caller j).inShutdown = false := by
  by_cases hjk : j = k
  · rw [hjk, caller_moveCaller_self]
    rfl
  · rw [caller_moveCaller_of_ne s hjk]
    by_contra hj
    have htwo := h.calls.two j k hjk (Bool.not_eq_false _ ▸ hj) hk
    omega

theorem pending_moveCaller_idle (hk : (s.caller k).pending = none) (j : κ) :
    ((s.moveCaller k .idle).caller j).pending = (s.caller j).pending := by
  by_cases hjk : j = k
  · rw [hjk, hk, caller_moveCaller_self]
    rfl
  · rw [caller_moveCaller_of_ne s hjk]

/-- **Graceful shutdown.** Take the state in which the only `Shutdown()` so far is about to return.
In every state after that in which all calls have returned, the tasks executed are the tasks
accepted, each executed once, exactly if no call of `Run` is between its check and its push, and the
queue is empty. -/
theorem graceful_shutdown_iff (config : PoolConfig) (as : List (Action κ τ))
    (hrun : runAll step (started config) as = .ok s) (hone : s.shutdowns = [false]) (k : κ)
    (position : ℕ) (hk : s.caller k = .joining position) (hend : s.threads.length ≤ position) :
    (∀ bs t, runAll step s (.advance k :: bs) = .ok t → t.shutdowns = [false] →
      (∀ j, t.caller j = .idle) → t.executed.Perm t.accepted) ↔
    (∀ j, (s.caller j).pending = none) ∧ s.tasks = [] := by
  have hinv : s.Inv := inv_of_runAll (inv_started config) hrun
  have hstep : s.step (.advance k) = .ok (s.moveCaller k .idle) := by
    have hthread : s.threads[position]? = none := List.getElem?_eq_none hend
    simp only [step, advance, hk, join, hthread]
  have hinv' : (s.moveCaller k .idle).Inv := hinv.step hstep
  have hpending : ∀ j, ((s.moveCaller k .idle).caller j).pending = (s.caller j).pending :=
    pending_moveCaller_idle (by rw [hk]; rfl)
  constructor
  · intro h
    have hin : ∀ j, ((s.moveCaller k .idle).caller j).inShutdown = false :=
      hinv.inShutdown_moveCaller (by rw [hone]; exact le_rfl) (by rw [hk]; rfl)
    obtain ⟨bs, t, hrun', hidle, hshutdowns, hnothing⟩ := hinv'.exists_all_return hin
    have hperm : t.executed.Perm t.accepted :=
      h bs t (runAll_cons_eq_ok.mpr ⟨_, hstep, hrun'⟩) (hshutdowns.trans hone) hidle
    obtain ⟨hnone, htasks⟩ := hnothing hperm
    exact ⟨fun j ↦ (hpending j).symm.trans (hnone j), htasks⟩
  · rintro ⟨hnone, htasks⟩ bs t ht - -
    obtain ⟨s', hs', hrest⟩ := runAll_cons_eq_ok.mp ht
    rw [hstep] at hs'
    cases hs'
    have hquiet : (s.moveCaller k .idle).Quiet :=
      ⟨hinv.withdrawn k position hk, fun j ↦ (hpending j).trans (hnone j), htasks,
        hinv.workers_of_joining hk hend hnone⟩
    have hquiet' : t.Quiet := runAll_invariant (fun _ _ _ h hs ↦ h.step hs) hquiet hrest
    exact hquiet'.perm (inv_of_runAll hinv' hrest).accounts

/-- The only task has been executed when `Shutdown()` is called. -/
theorem graceful_shutdown_iff_executed :
    ∃ s : ThreadPool Unit ℕ,
      runAll step (started oneThread)
        [.run () 7, .advance (), .advance (), .advance (), .notifyOne () none,
          .work 0, .work 0, .work 0, .work 0, .shutdown () false, .advance (), .work 0, .work 0,
          .work 0, .advance (), .advance (), .advance ()] = .ok s ∧
      s.accepted = [7] ∧
      ∀ bs t, runAll step s (.advance () :: bs) = .ok t → t.shutdowns = [false] →
        (∀ j, t.caller j = .idle) → t.executed.Perm t.accepted := by
  refine exists_ok_of_map (fun s ↦ ((s.accepted, s.shutdowns), s.caller (), s.threads, s.tasks))
    (([7], [false]), .joining 1, [0], []) (by decide +kernel) fun s hs hobserved ↦ ?_
  simp only [Prod.mk.injEq] at hobserved
  obtain ⟨⟨haccepted, hshutdowns⟩, hcaller, hthreads, htasks⟩ := hobserved
  refine ⟨haccepted, (graceful_shutdown_iff oneThread _ hs hshutdowns () 1 hcaller
    (by rw [hthreads]; exact le_rfl)).mpr ⟨fun j ↦ ?_, htasks⟩⟩
  rw [hcaller]
  rfl

/-- A call of `Run` passes its check, `Shutdown()` is called and returns, and the call of `Run`
pushes its task. -/
theorem not_executed_after_shutdown :
    ∃ s : ThreadPool Bool ℕ,
      runAll step (started oneThread)
        [.run false 7, .shutdown true false, .advance true, .work 0, .work 0, .work 0,
          .advance true, .advance true, .advance true, .advance true, .advance false,
          .advance false, .advance false, .notifyOne false none] = .ok s ∧
      s.shutdowns = [false] ∧ (∀ j, s.caller j = .idle) ∧ s.accepted = [7] ∧ s.executed = [] := by
  refine exists_ok_of_map
    (fun s ↦ (s.shutdowns, (s.caller false, s.caller true), s.accepted, s.executed))
    ([false], (.idle, .idle), [7], []) (by decide +kernel) fun s hs hobserved ↦ ?_
  simp only [Prod.mk.injEq] at hobserved
  obtain ⟨hshutdowns, ⟨hfalse, htrue⟩, haccepted, hexecuted⟩ := hobserved
  exact ⟨hshutdowns, Bool.forall_bool.mpr ⟨hfalse, htrue⟩, haccepted, hexecuted⟩

end ThreadPool

end Hlib

end Fishnet
