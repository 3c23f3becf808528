import Fishnet.Net.EventLoop

/-!
# The queue of functors loses nothing and wakes the loop

Two invariants of the event loop, over any interleaving.

`Fifo`: the functors called so far, the rest of the batch and the queue make up the pushes, in their
order. A push made while a batch runs is marked with the number of that batch, and the functors of a
batch do not carry its number.

`Woken`: from the swap of one iteration to the end of `poll` in the next, a functor in the queue is
covered: the event descriptor is readable, or the thread that pushed the functor has yet to write to
it. Only the handler of the event descriptor resets the counter. It runs before the swap.

## Main results

* `EventLoop.functors_fifo`: functors are started in the order of the pushes, once, and never in the
  batch during which they were pushed.
* `EventLoop.no_lost_wakeup`: `poll` is not entered with a functor in the queue that nobody will
  wake the loop for.
-/

namespace Fishnet

open Function List

namespace LoopPc

/-- Inside `doPendingFunctors`. -/
def isPending : LoopPc → Bool
  | .swapping => true
  | pc => pc.isRunning

/-- From the swap to the end of the next `poll`: the counter of the event descriptor is not reset.
-/
def isWaiting : LoopPc → Bool
  | .testing | .polling => true
  | pc => pc.isRunning

end LoopPc

namespace EventLoop

variable {F T : Type} {s s' : EventLoop F T}

/-! ## What the program counter tells -/

/-- What the place of the loop thread tells about the variables of `doPendingFunctors`. -/
structure Phase (s : EventLoop F T) : Prop where
  calling : s.callingPendingFunctors = s.pc.isPending
  functors : s.pc.isRunning = false → s.functors = []

theorem phase_new : Phase (new : EventLoop F T) := ⟨rfl, fun _ ↦ rfl⟩

theorem handle_eq_ok (h : s.handle = .ok s') :
    (∃ active, s.pc = .handling (.wakeup :: active) ∧
      s' = { s with wakeupFd := 0, pc := .handling active }) ∨
    ∃ active, s.pc = .handling (.other :: active) ∧ s' = { s with pc := .inHandler active } := by
  unfold handle at h
  split at h
  · exact .inl ⟨_, ‹_›, (Except.ok.inj h).symm⟩
  · exact .inr ⟨_, ‹_›, (Except.ok.inj h).symm⟩
  · cases h

theorem handlerReturn_eq_ok (h : s.handlerReturn = .ok s') :
    ∃ active, s.pc = .inHandler active ∧ s' = { s with pc := .handling active } := by
  unfold handlerReturn at h
  split at h
  · exact ⟨_, ‹_›, (Except.ok.inj h).symm⟩
  · cases h

theorem call_eq_ok (h : s.call = .ok s') :
    ∃ f functors, s.functors = f :: functors ∧ s.pc = .calling ∧
      s' = { s with
        functors := functors, started := s.started ++ [(s.batch, f)], pc := .inFunctor } := by
  unfold call at h
  split at h
  · cases h
  · obtain ⟨hpc, hs⟩ := guarded_eq_ok.mp h
    exact ⟨_, _, ‹_›, hpc, hs.symm⟩

theorem Phase.congr (h : Phase s) (hcalling : s'.callingPendingFunctors = s.callingPendingFunctors)
    (hfunctors : s'.functors = s.functors) (hpending : s'.pc.isPending = s.pc.isPending)
    (hrunning : s'.pc.isRunning = s.pc.isRunning) : Phase s' where
  calling := by rw [hcalling, hpending, h.calling]
  functors := by rw [hfunctors, hrunning]; exact h.functors

/-- A functor queues in place and goes on to wake the loop up; an event handler only queues. -/
theorem Phase.queueHere (h : Phase s) (huser : s.pc.isUser) :
    (s.pc = .inFunctor ∧ s.callingPendingFunctors = true) ∨
      (s.pc.isWaiting = false ∧ s.callingPendingFunctors = false) := by
  rw [h.calling]
  cases hpc : s.pc with
  | idle | inHandler active => exact .inr ⟨rfl, rfl⟩
  | inFunctor => exact .inl ⟨rfl, rfl⟩
  | testing | polling | handling active | swapping | calling | waking =>
    rw [hpc] at huser
    cases huser

theorem Phase.step [DecidableEq T] (h : Phase s) {a : Action F T} (hs : s.step a = .ok s') :
    Phase s' := by
  cases a with
  | loop | functorReturn | wakeHere =>
    obtain ⟨hpc, rfl⟩ := guarded_eq_ok.mp hs
    exact h.congr rfl rfl (by rw [hpc]; rfl) (by rw [hpc]; rfl)
  | test =>
    obtain ⟨hpc, rfl⟩ := guarded_eq_ok.mp hs
    exact h.congr rfl rfl (by cases s.quit <;> rw [hpc] <;> rfl)
      (by cases s.quit <;> rw [hpc] <;> rfl)
  | poll active =>
    obtain ⟨⟨hpc, -⟩, rfl⟩ := guarded_eq_ok.mp hs
    exact h.congr rfl rfl (by rw [hpc]; rfl) (by rw [hpc]; rfl)
  | handle =>
    obtain ⟨active, hpc, rfl⟩ | ⟨active, hpc, rfl⟩ := handle_eq_ok hs <;>
      exact h.congr rfl rfl (by rw [hpc]; rfl) (by rw [hpc]; rfl)
  | handlerReturn =>
    obtain ⟨active, hpc, rfl⟩ := handlerReturn_eq_ok hs
    exact h.congr rfl rfl (by rw [hpc]; rfl) (by rw [hpc]; rfl)
  | doPendingFunctors =>
    obtain ⟨hpc, rfl⟩ := guarded_eq_ok.mp hs
    exact ⟨rfl, fun _ ↦ h.functors (by rw [hpc]; rfl)⟩
  | swap =>
    obtain ⟨hpc, rfl⟩ := guarded_eq_ok.mp hs
    exact ⟨h.calling.trans (by rw [hpc]; rfl), fun hrunning ↦ by cases hrunning⟩
  | call =>
    obtain ⟨f, functors, -, hpc, rfl⟩ := call_eq_ok hs
    exact ⟨h.calling.trans (by rw [hpc]; rfl), fun hrunning ↦ by cases hrunning⟩
  | finish =>
    obtain ⟨⟨-, hnil⟩, rfl⟩ := guarded_eq_ok.mp hs
    exact ⟨rfl, fun _ ↦ hnil⟩
  | queueHere f =>
    obtain ⟨huser, rfl⟩ := guarded_eq_ok.mp hs
    rcases h.queueHere huser with ⟨hpc, hcalling⟩ | ⟨-, hcalling⟩
    · exact h.congr rfl rfl (by rw [hcalling, hpc]; rfl) (by rw [hcalling, hpc]; rfl)
    · exact h.congr rfl rfl (by rw [hcalling]; rfl) (by rw [hcalling]; rfl)
  | quitHere | queue t f | wake t | quit t =>
    obtain ⟨-, rfl⟩ := guarded_eq_ok.mp hs
    exact h.congr rfl rfl rfl rfl

/-! ## First in, first out -/

/-- The functors called so far. -/
def startedFunctors (s : EventLoop F T) : List (Queued F) := s.started.map Prod.snd

/-- The functors called in batch `b`. -/
def startedIn (s : EventLoop F T) (b : ℕ) : List (Queued F) :=
  (s.started.filter fun x ↦ x.1 = b).map Prod.snd

structure Fifo (s : EventLoop F T) : Prop where
  order : s.startedFunctors ++ s.functors ++ s.pendingFunctors = s.pushed
  index : s.pushed.map Queued.index = List.range s.pushed.length
  batch_le : ∀ x ∈ s.started, x.1 ≤ s.batch
  during_le : ∀ q ∈ s.pushed, ∀ b, q.during = some b → b ≤ s.batch
  functors_during : ∀ q ∈ s.functors, q.during ≠ some s.batch
  started_during : ∀ x ∈ s.started, x.2.during ≠ some x.1
  swapped : s.startedIn s.batch ++ s.functors = s.swapped

theorem fifo_new : Fifo (new : EventLoop F T) where
  order := rfl
  index := rfl
  batch_le _ h := absurd h not_mem_nil
  during_le _ h := absurd h not_mem_nil
  functors_during _ h := absurd h not_mem_nil
  started_during _ h := absurd h not_mem_nil
  swapped := rfl

section

variable (h : Fifo s)
include h

theorem Fifo.congr (hstarted : s'.started = s.started)
    (hfunctors : s'.functors = s.functors)
    (hpending : s'.pendingFunctors = s.pendingFunctors) (hpushed : s'.pushed = s.pushed)
    (hbatch : s'.batch = s.batch) (hswapped : s'.swapped = s.swapped) : Fifo s' := by
  obtain ⟨pc, quit, calling, pending, functors, fd, caller, pushed, started, batch, swapped, mark,
    it⟩ := s'
  subst hstarted hfunctors hpending hpushed hbatch hswapped
  exact ⟨h.order, h.index, h.batch_le, h.during_le, h.functors_during, h.started_during, h.swapped⟩

theorem Fifo.push (f : F) : Fifo (s.push f) where
  order := by
    change s.startedFunctors ++ s.functors ++ (s.pendingFunctors ++ [s.record f]) = _
    rw [← append_assoc, h.order]
    rfl
  index := by
    change (s.pushed ++ [s.record f]).map Queued.index =
      List.range (s.pushed ++ [s.record f]).length
    rw [map_append, h.index, length_append, length_singleton, range_succ]
    rfl
  batch_le := h.batch_le
  during_le q hq b hb := by
    rcases mem_append.mp hq with hq | hq
    · exact h.during_le q hq b hb
    · rw [mem_singleton.mp hq, record] at hb
      split_ifs at hb
      · exact (Option.some.inj hb).symm.le
  functors_during := h.functors_during
  started_during := h.started_during
  swapped := h.swapped

theorem Fifo.call {f : Queued F} {functors : List (Queued F)}
    (hf : s.functors = f :: functors) (pc : LoopPc) :
    Fifo { s with functors := functors, started := s.started ++ [(s.batch, f)], pc := pc } where
  order := by
    rw [← h.order, hf, startedFunctors, startedFunctors, map_append]
    simp
  index := h.index
  batch_le x hx := by
    rcases mem_append.mp hx with hx | hx
    · exact h.batch_le x hx
    · rw [mem_singleton.mp hx]
  during_le := h.during_le
  functors_during q hq := h.functors_during q (hf ▸ mem_cons_of_mem f hq)
  started_during x hx := by
    rcases mem_append.mp hx with hx | hx
    · exact h.started_during x hx
    · rw [mem_singleton.mp hx]
      exact h.functors_during f (hf ▸ mem_cons_self)
  swapped := by
    rw [← h.swapped, hf, startedIn, startedIn, filter_append, map_append]
    simp

theorem Fifo.swap (hfunctors : s.functors = []) (pc : LoopPc) :
    Fifo { s with
      pc := pc, functors := s.pendingFunctors, pendingFunctors := [], batch := s.batch + 1,
      swapped := s.pendingFunctors } where
  order := by
    rw [← h.order, hfunctors, append_nil, append_nil]
    rfl
  index := h.index
  batch_le x hx := (h.batch_le x hx).trans (Nat.le_succ _)
  during_le q hq b hb := (h.during_le q hq b hb).trans (Nat.le_succ _)
  functors_during q hq hb := by
    -- nothing was pushed during a batch that has not begun
    have hq' : q ∈ s.pushed := by
      rw [← h.order]
      exact mem_append_right _ hq
    exact absurd (h.during_le q hq' _ hb) (Nat.not_succ_le_self _)
  started_during := h.started_during
  swapped := by
    have hnone : s.started.filter (fun x ↦ x.1 = s.batch + 1) = [] := by
      refine filter_eq_nil_iff.mpr fun x hx ↦ ?_
      have hle := h.batch_le x hx
      simp only [decide_eq_true_eq]
      omega
    rw [startedIn, hnone]
    rfl

theorem Fifo.step [DecidableEq T] (hphase : Phase s) {a : Action F T}
    (hs : s.step a = .ok s') : Fifo s' := by
  cases a with
  | handle =>
    obtain ⟨active, -, rfl⟩ | ⟨active, -, rfl⟩ := handle_eq_ok hs <;>
      exact h.congr rfl rfl rfl rfl rfl rfl
  | handlerReturn =>
    obtain ⟨active, -, rfl⟩ := handlerReturn_eq_ok hs
    exact h.congr rfl rfl rfl rfl rfl rfl
  | swap =>
    obtain ⟨hpc, rfl⟩ := guarded_eq_ok.mp hs
    exact h.swap (hphase.functors (by rw [hpc]; rfl)) _
  | call =>
    obtain ⟨f, functors, hf, -, rfl⟩ := call_eq_ok hs
    exact h.call hf _
  | queueHere f | queue t f =>
    obtain ⟨-, rfl⟩ := guarded_eq_ok.mp hs
    exact (h.push f).congr rfl rfl rfl rfl rfl rfl
  | loop | test | poll active | doPendingFunctors | functorReturn | finish | wakeHere | quitHere
  | wake t | quit t =>
    obtain ⟨-, rfl⟩ := guarded_eq_ok.mp hs
    exact h.congr rfl rfl rfl rfl rfl rfl

theorem Fifo.pushed_nodup : s.pushed.Nodup := by
  refine List.Nodup.of_map Queued.index ?_
  rw [h.index]
  exact nodup_range

theorem Fifo.startedFunctors_prefix : s.startedFunctors <+: s.pushed := by
  rw [← h.order, append_assoc]
  exact prefix_append _ _

theorem Fifo.index_lt {q : Queued F} (hq : q ∈ s.pendingFunctors) : q.index < s.pushed.length := by
  have hpushed : q ∈ s.pushed := by
    rw [← h.order]
    exact mem_append_right _ hq
  have hindex := mem_map_of_mem hpushed (f := Queued.index)
  rw [h.index] at hindex
  exact mem_range.mp hindex

end

/-! ## The wakeup -/

/-- Someone has woken the loop up for `q`, or is about to. -/
def Covered (s : EventLoop F T) (q : Queued F) : Prop :=
  0 < s.wakeupFd ∨ s.pc = .waking ∨ ∃ t, s.caller t = some (.queued q.index)

/-- `q` is a functor that the loop has to be woken up for: it was pushed after `loop` was called, or
has been left behind by a swap. -/
def Awaited (s : EventLoop F T) (q : Queued F) : Prop := s.mark ≤ q.index ∨ 0 < s.iterations

def Woken (s : EventLoop F T) : Prop :=
  s.pc.isWaiting → ∀ q ∈ s.pendingFunctors, s.Awaited q → s.Covered q

theorem woken_new : Woken (new : EventLoop F T) := fun _ _ hq ↦ absurd hq not_mem_nil

theorem eventfdWrite_pos (counter : ℕ) : 0 < eventfdWrite counter := by
  rw [eventfdWrite]
  split_ifs <;> omega

/-- The loop thread moves on, and neither wakes itself up nor takes the event away. -/
theorem Woken.move (h : Woken s) (hwaiting : s'.pc.isWaiting = true → s.pc.isWaiting = true)
    (hpc : s.pc ≠ .waking) (hpending : s'.pendingFunctors = s.pendingFunctors)
    (hwakeupFd : s'.wakeupFd = s.wakeupFd) (hcaller : s'.caller = s.caller)
    (hmark : s'.mark = s.mark) (hiterations : s'.iterations = s.iterations) : Woken s' := by
  intro hw q hq ha
  rw [hpending] at hq
  rw [Awaited, hmark, hiterations] at ha
  rcases h (hwaiting hw) q hq ha with hfd | hwaking | ht
  · exact .inl (hwakeupFd ▸ hfd)
  · exact absurd hwaking hpc
  · exact .inr (.inr (hcaller ▸ ht))

theorem woken_of_isWaiting_eq_false (h : s.pc.isWaiting = false) : Woken s := by
  intro hw
  rw [h] at hw
  cases hw

/-- Another thread enters a call. What it was doing before covered nothing. -/
theorem Covered.enter [DecidableEq T] {q : Queued F} (h : s.Covered q) {t : T}
    (hnone : s.caller t = none)
    (c : PendingCall) (hpc : s'.pc = s.pc) (hwakeupFd : s'.wakeupFd = s.wakeupFd)
    (hcaller : s'.caller = update s.caller t (some c)) : s'.Covered q := by
  rcases h with hfd | hwaking | ⟨u, hu⟩
  · exact .inl (hwakeupFd ▸ hfd)
  · exact .inr (.inl (hpc ▸ hwaking))
  · have hne : u ≠ t := by
      rintro rfl
      rw [hnone] at hu
      cases hu
    refine .inr (.inr ⟨u, ?_⟩)
    rw [hcaller, update_of_ne hne, hu]

theorem Woken.step [DecidableEq T] (h : Woken s) (hphase : Phase s) (hfifo : Fifo s)
    {a : Action F T} (hs : s.step a = .ok s') : Woken s' := by
  cases a with
  | loop =>
    obtain ⟨-, rfl⟩ := guarded_eq_ok.mp hs
    -- what was queued before is behind the mark
    rintro - q hq (hmark | hiterations)
    · exact absurd (hfifo.index_lt hq) (not_lt.mpr hmark)
    · exact absurd hiterations (lt_irrefl 0)
  | test | functorReturn =>
    obtain ⟨hpc, rfl⟩ := guarded_eq_ok.mp hs
    exact h.move (fun _ ↦ by rw [hpc]; rfl) (by rw [hpc]; decide) rfl rfl rfl rfl rfl
  | poll active | doPendingFunctors =>
    obtain ⟨-, rfl⟩ := guarded_eq_ok.mp hs
    exact woken_of_isWaiting_eq_false rfl
  | handle =>
    obtain ⟨active, -, rfl⟩ | ⟨active, -, rfl⟩ := handle_eq_ok hs <;>
      exact woken_of_isWaiting_eq_false rfl
  | handlerReturn =>
    obtain ⟨active, -, rfl⟩ := handlerReturn_eq_ok hs
    exact woken_of_isWaiting_eq_false rfl
  | swap =>
    obtain ⟨-, rfl⟩ := guarded_eq_ok.mp hs
    exact fun _ q hq ↦ absurd hq not_mem_nil
  | call =>
    obtain ⟨f, functors, -, hpc, rfl⟩ := call_eq_ok hs
    exact h.move (fun _ ↦ by rw [hpc]; rfl) (by rw [hpc]; decide) rfl rfl rfl rfl rfl
  | finish =>
    obtain ⟨⟨hpc, -⟩, rfl⟩ := guarded_eq_ok.mp hs
    exact h.move (fun _ ↦ by rw [hpc]; rfl) (by rw [hpc]; decide) rfl rfl rfl rfl rfl
  | queueHere f =>
    obtain ⟨huser, rfl⟩ := guarded_eq_ok.mp hs
    rcases hphase.queueHere huser with ⟨-, hcalling⟩ | ⟨hwaiting, hcalling⟩
    · exact fun _ q _ _ ↦ .inr (.inl (if_pos hcalling))
    · exact woken_of_isWaiting_eq_false (by rw [hcalling]; exact hwaiting)
  | wakeHere | wake t =>
    obtain ⟨-, rfl⟩ := guarded_eq_ok.mp hs
    exact fun _ q _ _ ↦ .inl (eventfdWrite_pos s.wakeupFd)
  | quitHere =>
    obtain ⟨-, rfl⟩ := guarded_eq_ok.mp hs
    exact h
  | queue t f =>
    obtain ⟨hnone, rfl⟩ := guarded_eq_ok.mp hs
    intro hw q hq ha
    rcases mem_append.mp hq with hq | hq
    · exact (h hw q hq ha).enter hnone _ rfl rfl rfl
    · refine .inr (.inr ⟨t, ?_⟩)
      rw [mem_singleton.mp hq]
      exact update_self _ _ _
  | quit t =>
    obtain ⟨hnone, rfl⟩ := guarded_eq_ok.mp hs
    exact fun hw q hq ha ↦ (h hw q hq ha).enter hnone _ rfl rfl rfl

/-! ## Whole runs -/

/-- All three invariants hold in every state that a run reaches. -/
theorem invariants_run [DecidableEq T] {actions : List (Action F T)}
    (h : runAll step (new : EventLoop F T) actions = .ok s) : Phase s ∧ Fifo s ∧ Woken s :=
  runAll_invariant (I := fun s ↦ Phase s ∧ Fifo s ∧ Woken s)
    (fun _ _ _ ⟨hphase, hfifo, hwoken⟩ hs ↦
      ⟨hphase.step hs, hfifo.step hphase hs, hwoken.step hphase hfifo hs⟩)
    ⟨phase_new, fifo_new, woken_new⟩ h

/-- **First in, first out.** After any interleaving, the functors started so far are an initial part
of the pushes, none of them twice. A functor pushed while a batch was running was not started in
that batch, and a batch starts only what was swapped out for it, in order. -/
theorem functors_fifo [DecidableEq T] {actions : List (Action F T)} {s : EventLoop F T}
    (h : runAll step new actions = .ok s) :
    s.startedFunctors <+: s.pushed ∧ s.startedFunctors.Nodup ∧
      (∀ x ∈ s.started, x.2.during ≠ some x.1) ∧ s.startedIn s.batch <+: s.swapped := by
  obtain ⟨-, hfifo, -⟩ := invariants_run h
  refine ⟨hfifo.startedFunctors_prefix, ?_, hfifo.started_during, ?_⟩
  · exact hfifo.pushed_nodup.sublist hfifo.startedFunctors_prefix.sublist
  · rw [← hfifo.swapped]
    exact prefix_append _ _

/-- One iteration: functor `9` is queued by functor `7`, while functor `8` is in the same batch. -/
def iteration : List (Action ℕ Bool) :=
  [.queue true 7, .loop, .test, .poll [], .queue false 8, .doPendingFunctors, .swap, .call,
    .queueHere 9, .wakeHere, .functorReturn, .call, .functorReturn, .finish, .test]

theorem functors_fifo_iteration : ∃ s : EventLoop ℕ Bool, runAll step new iteration = .ok s ∧
    s.startedFunctors.map Queued.functor = [7, 8] ∧ s.pushed.map Queued.functor = [7, 8, 9] ∧
    s.startedFunctors <+: s.pushed ∧ s.startedFunctors.Nodup ∧
      (∀ x ∈ s.started, x.2.during ≠ some x.1) ∧ s.startedIn s.batch <+: s.swapped :=
  ⟨_, rfl, rfl, rfl, @functors_fifo ℕ Bool _ iteration _ rfl⟩

/-- **No lost wakeup.** Whenever the loop thread is in `poll` after the first iteration and the
queue is not empty, the event descriptor is readable or another thread is between its push and its
write. In any iteration, a functor pushed after `loop` was called keeps the loop waiting only while
the call that pushed it has not returned. -/
theorem no_lost_wakeup [DecidableEq T] {actions : List (Action F T)} {s : EventLoop F T}
    (h : runAll step new actions = .ok s) (hpc : s.pc = .polling) :
    (0 < s.iterations → s.pendingFunctors ≠ [] →
      0 < s.wakeupFd ∨ ∃ t i, s.caller t = some (.queued i)) ∧
    ∀ q ∈ s.pendingFunctors, s.mark ≤ q.index →
      0 < s.wakeupFd ∨ ∃ t, s.caller t = some (.queued q.index) := by
  obtain ⟨-, -, hwoken⟩ := invariants_run h
  have hcovered : ∀ q ∈ s.pendingFunctors, s.Awaited q →
      0 < s.wakeupFd ∨ ∃ t, s.caller t = some (.queued q.index) := by
    intro q hq ha
    rcases hwoken (by rw [hpc]; rfl) q hq ha with hfd | hwaking | ht
    · exact .inl hfd
    · rw [hpc] at hwaking
      cases hwaking
    · exact .inr ht
  refine ⟨fun hiterations hne ↦ ?_, fun q hq hmark ↦ hcovered q hq (.inl hmark)⟩
  obtain ⟨q, hq⟩ := exists_mem_of_ne_nil _ hne
  exact (hcovered q hq (.inr hiterations)).imp_right fun ⟨t, ht⟩ ↦ ⟨t, _, ht⟩

theorem no_lost_wakeup_iteration : ∃ s : EventLoop ℕ Bool, runAll step new iteration = .ok s ∧
    s.pc = .polling ∧ 0 < s.iterations ∧ s.pendingFunctors ≠ [] ∧
    (0 < s.wakeupFd ∨ ∃ t i, s.caller t = some (.queued i)) :=
  ⟨_, rfl, rfl, Nat.one_pos, cons_ne_nil _ _,
    (@no_lost_wakeup ℕ Bool _ iteration _ rfl rfl).1 Nat.one_pos (cons_ne_nil _ _)⟩

end EventLoop

end Fishnet
