import Fishnet.Net.EventLoopQueue

/-!
# The thread of an event loop, and the request to quit

`EventLoopThread` runs an `EventLoop` in a thread of its own. The thread constructs the loop,
publishes its address in `loop_`, and calls `loop`. `startLoop` waits for the address, and from then
on any thread may use the loop. The destructor calls `quit` on it and joins the thread.

`loop` begins with `quit_ = false`. A `quit` that comes after the publication and before this
assignment is forgotten: the loop starts to iterate, and the destructor waits for a thread that does
not end. That is the only way to lose a request (`quit_not_lost_iff`).

## The model

The actions of `EventLoop` are taken over, each with the condition under which a thread can take it.
The loop lives on the stack of its thread: a call made after the thread has ended is a bad access,
and so is the `quit` of the destructor if `loop_` has been cleared since the test before it.
Threads other than the owner are left open, except that they have the address only once it is
published. The owner is the thread `none`. `exiting_` is left out, since nothing reads it.

`requested` is history: `quit` has set `quit_` since the publication.
-/

namespace Fishnet

/-- Where the thread of the loop is in `threadFunc`. -/
inductive ThreadPc where
  | notStarted
  /-- The loop is constructed, `callback_` may be running. -/
  | starting
  /-- `loop_` is set. -/
  | published
  /-- In `loop`. -/
  | looping
  /-- `loop` has returned. -/
  | stopped
  /-- `loop_` is reset. -/
  | cleared
  /-- The loop is destructed, and the thread has ended. -/
  | finished
  deriving DecidableEq, Repr

namespace ThreadPc

/-- The address of the loop has been given out. -/
def isPublic : ThreadPc → Bool
  | .notStarted | .starting => false
  | _ => true

end ThreadPc

/-- Where the owner of an `EventLoopThread` is. -/
inductive OwnerPc where
  | constructed
  /-- In `startLoop`, waiting for `loop_`. -/
  | waiting
  /-- `startLoop` has returned. -/
  | running
  /-- In the destructor, before `quit`. -/
  | quitting
  /-- In the destructor, in `quit`, before `wakeup`. -/
  | waking
  | joining
  | done
  deriving DecidableEq, Repr

structure EventLoopThread (F T : Type) where
  thread : ThreadPc
  owner : OwnerPc
  /-- `loop_` is not `NULL`. -/
  isSet : Bool
  /-- The local variable of `threadFunc`. -/
  loop : EventLoop F (Option T)
  requested : Bool

namespace EventLoopThread

variable {F T : Type}

def new : EventLoopThread F T where
  thread := .notStarted
  owner := .constructed
  isSet := false
  loop := .new
  requested := false

/-! ## The actions -/

inductive Action (F T : Type) where
  /-- `startLoop` is called: the thread starts and constructs the loop. -/
  | start
  /-- `startLoop` returns. -/
  | startLoopReturn
  /-- `loop_ = &loop`, under the lock. -/
  | publish
  /-- An action on the loop. -/
  | act (a : EventLoop.Action F (Option T))
  /-- `loop_ = NULL`, under the lock. -/
  | clear
  /-- The thread ends, and with it the loop. -/
  | finish
  /-- The destructor is called and reads `loop_`. -/
  | destroy
  /-- `thread_.join` returns. -/
  | join

/-- `quit` sets `quit_`. -/
def isQuit : EventLoop.Action F (Option T) → Bool
  | .quitHere | .quit _ => true
  | _ => false

section Threads

variable (s : EventLoopThread F T)

/-- The thread that takes the action can be there. -/
def permits : EventLoop.Action F (Option T) → Bool
  | .loop => s.thread = .published
  | .queueHere _ | .wakeHere | .quitHere => s.thread = .starting ∨ s.thread = .looping
  | .queue none _ => s.owner = .running
  | .wake none => s.owner = .running ∨ s.owner = .waking
  | .quit none => s.owner = .quitting
  | .queue (some _) _ | .wake (some _) | .quit (some _) => s.thread.isPublic
  | _ => s.thread = .looping

/-- The call goes through a pointer that is not valid. The destructor reads `loop_` once more for
`quit`; the other calls use an address that was read before. -/
def dangles : EventLoop.Action F (Option T) → Bool
  | .quit none => !s.isSet
  | .queue _ _ | .wake _ | .quit _ => s.thread = .finished
  | _ => false

/-- `threadFunc` goes on when `loop` is called and when it returns. -/
def threadAfter (loop : EventLoop F (Option T)) : EventLoop.Action F (Option T) → ThreadPc
  | .loop => .looping
  | .test => if loop.pc = .idle then .stopped else s.thread
  | _ => s.thread

/-- The destructor goes on with its call of `quit`. -/
def ownerAfter : EventLoop.Action F (Option T) → OwnerPc
  | .quit none => .waking
  | .wake none => if s.owner = .waking then .joining else s.owner
  | _ => s.owner

end Threads

variable [DecidableEq T] (s : EventLoopThread F T)

/-- An action on the loop. -/
def act (a : EventLoop.Action F (Option T)) : Except Halt (EventLoopThread F T) :=
  if s.permits a then
    if s.dangles a then .error (.fault .badAccess)
    else do
      let loop ← s.loop.step a
      return { s with
        loop := loop, thread := s.threadAfter loop a, owner := s.ownerAfter a,
        requested := s.requested || (isQuit a && s.thread.isPublic) }
  else .error .disabled

def step : Action F T → Except Halt (EventLoopThread F T)
  | .start => guarded (s.owner = .constructed) { s with owner := .waiting, thread := .starting }
  | .startLoopReturn => guarded (s.owner = .waiting ∧ s.isSet) { s with owner := .running }
  | .publish => guarded (s.thread = .starting) { s with thread := .published, isSet := true }
  | .act a => s.act a
  | .clear => guarded (s.thread = .stopped) { s with thread := .cleared, isSet := false }
  | .finish => guarded (s.thread = .cleared) { s with thread := .finished }
  | .destroy =>
    guarded (s.owner = .constructed ∨ s.owner = .running)
      { s with owner := if s.isSet then .quitting else .done }
  | .join => guarded (s.owner = .joining ∧ s.thread = .finished) { s with owner := .done }

end EventLoopThread

/-! ## What an action does to the loop -/

namespace EventLoop

variable {F T : Type} [DecidableEq T] {s s' : EventLoop F T} {a : Action F T}

/-- Only `loop` resets `quit_`. -/
theorem quit_of_step (h : s.step a = .ok s') (ha : a ≠ .loop) (hquit : s.quit = true) :
    s'.quit = true := by
  cases a with
  | loop => exact absurd rfl ha
  | handle =>
    obtain ⟨active, -, rfl⟩ | ⟨active, -, rfl⟩ := handle_eq_ok h
    · exact hquit
    · exact hquit
  | handlerReturn =>
    obtain ⟨active, -, rfl⟩ := handlerReturn_eq_ok h
    exact hquit
  | call =>
    obtain ⟨f, functors, -, -, rfl⟩ := call_eq_ok h
    exact hquit
  | quitHere | quit t =>
    obtain ⟨-, rfl⟩ := guarded_eq_ok.mp h
    rfl
  | _ =>
    obtain ⟨-, rfl⟩ := guarded_eq_ok.mp h
    exact hquit

/-- The loop is entered by `loop` and left by the test of `quit_`. -/
theorem idle_of_step (hphase : Phase s) (h : s.step a = .ok s') (hloop : a ≠ .loop)
    (htest : a ≠ .test) : s'.pc = .idle ↔ s.pc = .idle := by
  cases a with
  | loop => exact absurd rfl hloop
  | test => exact absurd rfl htest
  | poll active =>
    obtain ⟨⟨hpc, -⟩, rfl⟩ := guarded_eq_ok.mp h
    simp [hpc]
  | handle =>
    obtain ⟨active, hpc, rfl⟩ | ⟨active, hpc, rfl⟩ := handle_eq_ok h
    · simp [hpc]
    · simp [hpc]
  | handlerReturn =>
    obtain ⟨active, hpc, rfl⟩ := handlerReturn_eq_ok h
    simp [hpc]
  | call =>
    obtain ⟨f, functors, -, hpc, rfl⟩ := call_eq_ok h
    simp [hpc]
  | finish =>
    obtain ⟨⟨hpc, -⟩, rfl⟩ := guarded_eq_ok.mp h
    simp [hpc]
  | queueHere f =>
    obtain ⟨huser, rfl⟩ := guarded_eq_ok.mp h
    obtain ⟨hpc, hcalling⟩ | ⟨-, hcalling⟩ := hphase.queueHere huser
    · simp [hpc, hcalling]
    · simp [hcalling]
  | quitHere | queue t f | wake t | quit t =>
    obtain ⟨-, rfl⟩ := guarded_eq_ok.mp h
    exact Iff.rfl
  | doPendingFunctors | swap | functorReturn | wakeHere =>
    obtain ⟨hpc, rfl⟩ := guarded_eq_ok.mp h
    simp [hpc]

end EventLoop

namespace EventLoopThread

variable {F T : Type} [DecidableEq T] {s s' : EventLoopThread F T}
    {a : EventLoop.Action F (Option T)}

theorem act_eq_ok (h : s.act a = .ok s') :
    s.permits a = true ∧ ∃ loop, s.loop.step a = .ok loop ∧ s' = { s with
      loop := loop, thread := s.threadAfter loop a, owner := s.ownerAfter a,
      requested := s.requested || (isQuit a && s.thread.isPublic) } := by
  unfold act at h
  split_ifs at h with hpermits hdangles
  obtain ⟨loop, hloop, h⟩ := bind_eq_ok.mp h
  exact ⟨hpermits, loop, hloop, (Except.ok.inj h).symm⟩

theorem act_of_step {loop : EventLoop F (Option T)} (hpermits : s.permits a = true)
    (hvalid : s.dangles a = false) (hloop : s.loop.step a = .ok loop) :
    s.act a = .ok { s with
      loop := loop, thread := s.threadAfter loop a, owner := s.ownerAfter a,
      requested := s.requested || (isQuit a && s.thread.isPublic) } := by
  rw [act, if_pos hpermits, if_neg (by rw [hvalid]; decide), hloop]
  rfl

omit [DecidableEq T] in
theorem threadAfter_of_ne (hloop : a ≠ .loop) (htest : a ≠ .test) (loop : EventLoop F (Option T)) :
    s.threadAfter loop a = s.thread := by
  cases a with
  | loop => exact absurd rfl hloop
  | test => exact absurd rfl htest
  | _ => rfl

theorem quit_of_isQuit {loop loop' : EventLoop F (Option T)} (h : loop.step a = .ok loop')
    (ha : isQuit a = true) : loop'.quit = true := by
  cases a with
  | quitHere | quit t =>
    obtain ⟨-, rfl⟩ := guarded_eq_ok.mp h
    rfl
  | _ => cases ha

/-! ## The invariant -/

/-- `threadFunc` is in `loop` where its loop is, and a request is still there. -/
structure Sound (s : EventLoopThread F T) : Prop where
  phase : EventLoop.Phase s.loop
  idle : s.loop.pc = .idle ↔ s.thread ≠ .looping
  quit : s.requested = true → s.loop.quit = true
  isPublic : s.requested = true → s.thread.isPublic = true
  constructed : s.owner = .constructed → s.thread = .notStarted

/-- `threadFunc` calls `loop`. -/
def isLoop : Action F T → Bool
  | .act .loop => true
  | _ => false

/-- `loop` is not entered after a request. -/
def KeepsRequest (s : EventLoopThread F T) (a : Action F T) : Prop :=
  isLoop a = true → s.thread = .published → s.requested = false

instance (s : EventLoopThread F T) (a : Action F T) : Decidable (KeepsRequest s a) :=
  inferInstanceAs (Decidable (_ → _))

omit [DecidableEq T] in
theorem sound_new : Sound (new : EventLoopThread F T) where
  phase := EventLoop.phase_new
  idle := by simp [new, EventLoop.new]
  quit h := by cases h
  isPublic h := by cases h
  constructed _ := rfl

omit [DecidableEq T] in
theorem Sound.congr (h : Sound s) (hloop : s'.loop = s.loop)
    (hrequested : s'.requested = s.requested)
    (hthread : s'.thread = .looping ↔ s.thread = .looping)
    (hpublic : s.thread.isPublic = true → s'.thread.isPublic = true)
    (howner : s'.owner = .constructed → s'.thread = .notStarted) : Sound s' where
  phase := by rw [hloop]; exact h.phase
  idle := by rw [hloop, h.idle, not_iff_not, hthread]
  quit hreq := by rw [hloop]; exact h.quit (hrequested ▸ hreq)
  isPublic hreq := hpublic (h.isPublic (hrequested ▸ hreq))
  constructed := howner

omit [DecidableEq T] in
theorem constructed_of_ownerAfter (h : s.ownerAfter a = .constructed) : s.owner = .constructed := by
  unfold ownerAfter at h
  split at h
  · cases h
  · split_ifs at h
    exact h
  · exact h

theorem Sound.act (h : Sound s) (hkeeps : KeepsRequest s (.act a)) (hact : s.act a = .ok s') :
    Sound s' := by
  obtain ⟨hpermits, loop, hloop, rfl⟩ := act_eq_ok hact
  have hphase : EventLoop.Phase loop := h.phase.step hloop
  by_cases hisLoop : a = .loop
  · subst hisLoop
    have hpublished : s.thread = .published := of_decide_eq_true hpermits
    -- `loop` resets `quit_`, so nothing may have been requested before
    have hnot : s.requested = false := hkeeps rfl hpublished
    obtain ⟨-, rfl⟩ := guarded_eq_ok.mp hloop
    refine ⟨hphase, by simp [threadAfter], by simp [hnot, isQuit], by simp [hnot, isQuit],
      fun howner ↦ ?_⟩
    exact absurd (h.constructed howner) (by simp [hpublished])
  have hquit : (s.requested || (isQuit a && s.thread.isPublic)) = true → loop.quit = true := by
    intro hreq
    rcases Bool.or_eq_true_iff.mp hreq with hreq | hreq
    · exact EventLoop.quit_of_step hloop hisLoop (h.quit hreq)
    · exact quit_of_isQuit hloop (Bool.and_eq_true_iff.mp hreq).1
  have hpublic : (s.requested || (isQuit a && s.thread.isPublic)) = true →
      s.thread.isPublic = true := by
    intro hreq
    rcases Bool.or_eq_true_iff.mp hreq with hreq | hreq
    · exact h.isPublic hreq
    · exact (Bool.and_eq_true_iff.mp hreq).2
  by_cases hisTest : a = .test
  · subst hisTest
    have hlooping : s.thread = .looping := of_decide_eq_true hpermits
    refine ⟨hphase, ?_, hquit, fun _ ↦ ?_, fun howner ↦ ?_⟩
    · by_cases hidle : loop.pc = .idle
      · simp [threadAfter, hidle]
      · simp [threadAfter, hidle, hlooping]
    · by_cases hidle : loop.pc = .idle
      · simp [threadAfter, hidle, ThreadPc.isPublic]
      · simp [threadAfter, hidle, hlooping, ThreadPc.isPublic]
    · exact absurd (h.constructed howner) (by simp [hlooping])
  · rw [threadAfter_of_ne hisLoop hisTest]
    exact ⟨hphase, (EventLoop.idle_of_step h.phase hloop hisLoop hisTest).trans h.idle, hquit,
      hpublic, fun howner ↦ h.constructed (constructed_of_ownerAfter howner)⟩

theorem Sound.step (h : Sound s) {a : Action F T} (hkeeps : KeepsRequest s a)
    (hs : s.step a = .ok s') : Sound s' := by
  cases a with
  | act a => exact h.act hkeeps hs
  | start =>
    obtain ⟨howner, rfl⟩ := guarded_eq_ok.mp hs
    have hthread := h.constructed howner
    exact h.congr rfl rfl (by simp [hthread]) (by simp [hthread, ThreadPc.isPublic])
      fun howner ↦ by cases howner
  | publish | clear | finish =>
    obtain ⟨hthread, rfl⟩ := guarded_eq_ok.mp hs
    exact h.congr rfl rfl (by simp [hthread]) (fun _ ↦ rfl) fun howner ↦
      absurd (h.constructed howner) (by simp [hthread])
  | startLoopReturn | join =>
    obtain ⟨-, rfl⟩ := guarded_eq_ok.mp hs
    exact h.congr rfl rfl Iff.rfl id fun howner ↦ by cases howner
  | destroy =>
    obtain ⟨-, rfl⟩ := guarded_eq_ok.mp hs
    exact h.congr rfl rfl Iff.rfl id fun howner ↦ by
      dsimp only at howner
      split_ifs at howner

/-! ## The end of the thread -/

/-- What the thread of the loop does of its own accord. -/
def OfThread : Action F T → Prop
  | .clear | .finish => True
  | .act a =>
    match a with
    | .test | .poll _ | .handle | .handlerReturn | .doPendingFunctors | .swap | .call
    | .functorReturn | .finish | .wakeHere => True
    | _ => False
  | _ => False

/-- The thread can end without the others. -/
def Finishes (s : EventLoopThread F T) : Prop :=
  ∃ own s', (∀ a ∈ own, OfThread a) ∧ runAll step s own = .ok s' ∧ s'.thread = .finished

theorem Finishes.of_step {a : Action F T} (ha : OfThread a) (hs : s.step a = .ok s')
    (h : Finishes s') : Finishes s := by
  obtain ⟨own, t, hown, hrun, hthread⟩ := h
  refine ⟨a :: own, t, ?_, runAll_cons_eq_ok.mpr ⟨s', hs, hrun⟩, hthread⟩
  intro b hb
  rcases List.mem_cons.mp hb with rfl | hb
  · exact ha
  · exact hown b hb

theorem finishes_finished (h : s.thread = .finished) : Finishes s :=
  ⟨[], s, fun _ ha ↦ (List.not_mem_nil ha).elim, rfl, h⟩

theorem finishes_cleared (h : s.thread = .cleared) : Finishes s :=
  (finishes_finished rfl).of_step (a := .finish) trivial (guarded_eq_ok.mpr ⟨h, rfl⟩)

theorem finishes_stopped (h : s.thread = .stopped) : Finishes s :=
  (finishes_cleared rfl).of_step (a := .clear) trivial (guarded_eq_ok.mpr ⟨h, rfl⟩)

section

variable (hthread : s.thread = .looping)
include hthread

theorem Finishes.of_act {loop : EventLoop F (Option T)} (ha : OfThread (.act a : Action F T))
    (hloop : s.loop.step a = .ok loop)
    (h : Finishes { s with loop := loop, thread := s.threadAfter loop a }) : Finishes s := by
  have hpermits : s.permits a = true := by
    cases a <;> first | exact ha.elim | simp [permits, hthread]
  have hvalid : s.dangles a = false := by
    cases a <;> first | exact ha.elim | rfl
  have hact := act_of_step hpermits hvalid hloop
  have howner : s.ownerAfter a = s.owner := by
    cases a <;> first | exact ha.elim | rfl
  have hquit : isQuit a = false := by
    cases a <;> first | exact ha.elim | rfl
  rw [howner, hquit, Bool.false_and, Bool.or_false] at hact
  exact h.of_step ha hact

variable (hquit : s.loop.quit = true)
include hquit

theorem finishes_testing (hpc : s.loop.pc = .testing) : Finishes s := by
  refine Finishes.of_act (a := .test) hthread trivial (guarded_eq_ok.mpr ⟨hpc, rfl⟩) ?_
  exact finishes_stopped (by simp [threadAfter, hquit])

theorem finishes_calling (hpc : s.loop.pc = .calling) : Finishes s := by
  obtain ⟨functors, hfunctors⟩ : ∃ functors, s.loop.functors = functors := ⟨_, rfl⟩
  induction functors generalizing s with
  | nil =>
    refine Finishes.of_act (a := .finish) hthread trivial
      (guarded_eq_ok.mpr ⟨⟨hpc, hfunctors⟩, rfl⟩) ?_
    exact finishes_testing hthread hquit rfl
  | cons f functors ih =>
    -- the functor is called and returns at once
    have hcall : s.loop.step .call = .ok { s.loop with
        functors := functors, started := s.loop.started ++ [(s.loop.batch, f)],
        pc := .inFunctor } := by
      rw [EventLoop.step, EventLoop.call, hfunctors]
      exact guarded_eq_ok.mpr ⟨hpc, rfl⟩
    refine Finishes.of_act (a := .call) hthread trivial hcall ?_
    refine Finishes.of_act (a := .functorReturn) hthread trivial (guarded_eq_ok.mpr ⟨rfl, rfl⟩) ?_
    exact ih hthread hquit rfl rfl

theorem finishes_inFunctor (hpc : s.loop.pc = .inFunctor) : Finishes s := by
  refine Finishes.of_act (a := .functorReturn) hthread trivial (guarded_eq_ok.mpr ⟨hpc, rfl⟩) ?_
  exact finishes_calling hthread hquit rfl

theorem finishes_swapping (hpc : s.loop.pc = .swapping) : Finishes s := by
  refine Finishes.of_act (a := .swap) hthread trivial (guarded_eq_ok.mpr ⟨hpc, rfl⟩) ?_
  exact finishes_calling hthread hquit rfl

theorem finishes_handling {active : List Source} (hpc : s.loop.pc = .handling active) :
    Finishes s := by
  induction active generalizing s with
  | nil =>
    refine Finishes.of_act (a := .doPendingFunctors) hthread trivial
      (guarded_eq_ok.mpr ⟨hpc, rfl⟩) ?_
    exact finishes_swapping hthread hquit rfl
  | cons source active ih =>
    cases source with
    | wakeup =>
      have hhandle : s.loop.step .handle =
          .ok { s.loop with wakeupFd := 0, pc := .handling active } := by
        rw [EventLoop.step, EventLoop.handle, hpc]
      exact Finishes.of_act (a := .handle) hthread trivial hhandle (ih hthread hquit rfl)
    | other =>
      have hhandle : s.loop.step .handle = .ok { s.loop with pc := .inHandler active } := by
        rw [EventLoop.step, EventLoop.handle, hpc]
      refine Finishes.of_act (a := .handle) hthread trivial hhandle ?_
      refine Finishes.of_act (a := .handlerReturn) hthread trivial rfl ?_
      exact ih hthread hquit rfl

/-- With `quit_` set, the loop thread leaves `loop` from wherever it is. -/
theorem finishes_of_quit (hidle : s.loop.pc ≠ .idle) : Finishes s := by
  cases hpc : s.loop.pc with
  | idle => exact absurd hpc hidle
  | testing => exact finishes_testing hthread hquit hpc
  | polling =>
    have hguard : s.loop.pc = .polling ∧ (Source.wakeup ∈ [] → 0 < s.loop.wakeupFd) :=
      ⟨hpc, fun h ↦ by cases h⟩
    refine Finishes.of_act (a := .poll []) hthread trivial (guarded_eq_ok.mpr ⟨hguard, rfl⟩) ?_
    exact finishes_handling hthread hquit rfl
  | handling active => exact finishes_handling hthread hquit hpc
  | inHandler active =>
    have hreturn : s.loop.step .handlerReturn = .ok { s.loop with pc := .handling active } := by
      rw [EventLoop.step, EventLoop.handlerReturn, hpc]
    refine Finishes.of_act (a := .handlerReturn) hthread trivial hreturn ?_
    exact finishes_handling hthread hquit rfl
  | swapping => exact finishes_swapping hthread hquit hpc
  | calling => exact finishes_calling hthread hquit hpc
  | inFunctor => exact finishes_inFunctor hthread hquit hpc
  | waking =>
    refine Finishes.of_act (a := .wakeHere) hthread trivial (guarded_eq_ok.mpr ⟨hpc, rfl⟩) ?_
    exact finishes_inFunctor hthread hquit rfl

end

theorem Sound.finishes (h : Sound s) (hrequested : s.requested = true)
    (hthread : s.thread ≠ .published) : Finishes s := by
  have hpublic := h.isPublic hrequested
  cases hpc : s.thread with
  | notStarted | starting =>
    rw [hpc] at hpublic
    cases hpublic
  | published => exact absurd hpc hthread
  | looping => exact finishes_of_quit hpc (h.quit hrequested) fun hidle ↦ h.idle.mp hidle hpc
  | stopped => exact finishes_stopped hpc
  | cleared => exact finishes_cleared hpc
  | finished => exact finishes_finished hpc

/-! ## Requests to quit -/

/-- After a request, the test of `quit_` ends the loop. -/
def Obeys (s : EventLoopThread F T) : Prop :=
  s.requested = true → ∀ s', s.step (.act .test) = .ok s' → s'.thread = .stopped

theorem Sound.obeys (h : Sound s) : Obeys s := by
  intro hrequested s' hs
  obtain ⟨-, loop, hloop, rfl⟩ := act_eq_ok hs
  obtain ⟨-, rfl⟩ := guarded_eq_ok.mp hloop
  simp [threadAfter, h.quit hrequested]

omit [DecidableEq T] in
theorem eq_loop_of_isLoop {a : Action F T} (h : isLoop a = true) : a = .act .loop := by
  unfold isLoop at h
  split at h
  · rfl
  · cases h

theorem Sound.forgets (h : Sound s) {a : Action F T} (hkeeps : ¬KeepsRequest s a) :
    ∃ s', s.step a = .ok s' ∧ ¬Obeys s' := by
  obtain ⟨hloop, hkeeps⟩ := Classical.not_imp.mp hkeeps
  obtain ⟨hthread, hrequested⟩ := Classical.not_imp.mp hkeeps
  rw [Bool.not_eq_false] at hrequested
  obtain rfl := eq_loop_of_isLoop hloop
  have hidle : s.loop.pc = .idle := h.idle.mpr (by simp [hthread])
  refine ⟨_, act_of_step (by simp [permits, hthread]) rfl
    (guarded_eq_ok.mpr ⟨hidle, rfl⟩), fun hobeys ↦ ?_⟩
  -- `quit_` is false now, whoever has asked before
  have htest := hobeys (by simp [hrequested]) _
    (act_of_step (by simp [permits, threadAfter]) rfl
      (guarded_eq_ok.mpr ⟨rfl, rfl⟩))
  simp [threadAfter] at htest

/-- **Requests to quit.** Along a run, a `quit` that comes after the publication of the loop is
obeyed by every later test of `quit_`, exactly if `loop` is never entered after such a request. The
thread then ends once it has been asked to, unless it has yet to call `loop`. -/
theorem quit_not_lost_iff (as : List (Action F T)) :
    ((∀ pre, pre <+: as → ∀ s, runAll step new pre = .ok s → s.requested = true →
        ∀ s', s.step (.act .test) = .ok s' → s'.thread = .stopped) ↔
      Along step KeepsRequest new as) ∧
    (Along step KeepsRequest new as → ∀ s, runAll step new as = .ok s → s.requested = true →
      s.thread ≠ .published → Finishes s) := by
  refine ⟨along_iff_of_reached (A := fun _ _ ↦ True) (fun s hs ↦ hs.obeys)
    (fun s a s' hs _ hkeeps h ↦ hs.step hkeeps h)
      (fun s a hs _ hkeeps ↦ hs.forgets hkeeps) sound_new
    (along_of_forall fun _ _ _ ↦ trivial), fun halong s hrun ↦ ?_⟩
  have hsound : Sound s :=
    runAll_induct (fun s a s' hs hkeeps h ↦ hs.step hkeeps h) sound_new halong hrun
  exact hsound.finishes

/-- The destructor asks a loop that is running. -/
def askedInTime : List (Action Unit Unit) :=
  [.start, .publish, .startLoopReturn, .act .loop, .destroy, .act (.quit none), .act (.wake none)]

theorem quit_not_lost_askedInTime :
    ∃ s, runAll step new askedInTime = .ok s ∧ s.requested = true ∧ Finishes s := by
  have hfinishes := (quit_not_lost_iff askedInTime).2 (by decide)
  exact ⟨_, rfl, rfl, hfinishes _ rfl rfl (by decide)⟩

/-- The destructor asks a loop that is published and not running yet. `loop` resets `quit_`, and the
test that follows starts an iteration. -/
theorem quit_lost_before_loop :
    ∃ s s' : EventLoopThread Unit Unit,
      runAll step new [.start, .publish, .startLoopReturn, .destroy, .act (.quit none),
        .act .loop] =
        .ok s ∧
      s.requested = true ∧ s.step (.act .test) = .ok s' ∧ s'.thread = .looping ∧
        s'.loop.pc = .polling :=
  ⟨_, _, rfl, rfl, rfl, rfl, rfl⟩

end EventLoopThread

end Fishnet
