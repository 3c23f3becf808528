import Fishnet.Library.Run

/-!
# The event loop and its queue of functors

`EventLoop::loop` waits in `poll`, handles the active channels, and then runs the functors that have
been queued with `queueInLoop`. Any thread may queue a functor. The loop thread itself may do so
from an event handler or from a running functor. A caller outside the loop thread wakes the loop up
by writing to an event descriptor, and so does a running functor.

The model interleaves the loop thread and the other threads. An action is what one thread does
between two points where another can come in: everything under the lock is one action, and so is the
write or the read of the event descriptor. In between, `queueInLoop` has pushed and has not written
yet.

What event handlers and functors do is left open, except for the calls of `queueInLoop` and `quit`.
`runInLoop` needs no action of its own: in the loop thread it calls the functor at once, as part of
the user code that is running, and elsewhere it is `queueInLoop`.

## History

A push is recorded with its place in the order of pushes. The fields from `pushed` on are history:
no action depends on them.
-/

namespace Fishnet

open Function

/-! ## The state -/

/-- A functor in the queue. -/
structure Queued (F : Type) where
  /-- Its place in the order of `push_back` calls. -/
  index : ℕ
  functor : F
  /-- The number of the batch that was running when it was pushed. -/
  during : Option ℕ
  deriving DecidableEq, Repr

/-- An active channel: the one of the event descriptor, or another. -/
inductive Source where
  | wakeup
  | other
  deriving DecidableEq, Repr

/-- Where the loop thread is. -/
inductive LoopPc where
  /-- Outside `loop`. -/
  | idle
  /-- Before the test of `quit_`. -/
  | testing
  | polling
  /-- In the loop over the active channels. -/
  | handling (active : List Source)
  /-- In the handler of a channel. -/
  | inHandler (active : List Source)
  /-- In `doPendingFunctors`, before the swap. -/
  | swapping
  /-- In `doPendingFunctors`, in the loop over the functors. -/
  | calling
  | inFunctor
  /-- In a `queueInLoop` called by a functor, before `wakeup`. -/
  | waking
  deriving DecidableEq, Repr

namespace LoopPc

/-- A batch is running: the functors have been swapped out. -/
def isRunning : LoopPc → Bool
  | .calling | .inFunctor | .waking => true
  | _ => false

/-- User code of the loop thread is running. -/
def isUser : LoopPc → Bool
  | .idle | .inHandler _ | .inFunctor => true
  | _ => false

end LoopPc

/-- Where another thread is, if it is in a call: before the `wakeup` of a `queueInLoop` or a `quit`.
-/
inductive PendingCall where
  | queued (index : ℕ)
  | quit
  deriving DecidableEq, Repr

structure EventLoop (F T : Type) where
  pc : LoopPc
  /-- `quit_`. -/
  quit : Bool
  /-- `callingPendingFunctors_`. -/
  callingPendingFunctors : Bool
  /-- `pendingFunctors_`. -/
  pendingFunctors : List (Queued F)
  /-- The local variable of `doPendingFunctors`, without the functors already called. -/
  functors : List (Queued F)
  /-- The counter of `wakeupFd_`. -/
  wakeupFd : ℕ
  /-- The other threads. -/
  caller : T → Option PendingCall
  /-- All pushes. -/
  pushed : List (Queued F)
  /-- The functors that were called, each with the number of its batch. -/
  started : List (ℕ × Queued F)
  /-- The number of batches. -/
  batch : ℕ
  /-- What was swapped out for the current batch. -/
  swapped : List (Queued F)
  /-- The number of pushes when `loop` was called. -/
  mark : ℕ
  /-- The number of times `poll` has returned since. -/
  iterations : ℕ

namespace EventLoop

variable {F T : Type} [DecidableEq T]

/-- A loop as constructed. -/
def new : EventLoop F T where
  pc := .idle
  quit := false
  callingPendingFunctors := false
  pendingFunctors := []
  functors := []
  wakeupFd := 0
  caller _ := none
  pushed := []
  started := []
  batch := 0
  swapped := []
  mark := 0
  iterations := 0

/-! ## The actions -/

/-- `write` to an event descriptor. It fails rather than let the counter reach `2 ^ 64 - 1`. -/
def eventfdWrite (counter : ℕ) : ℕ := if counter < 2 ^ 64 - 2 then counter + 1 else counter

variable (s : EventLoop F T)

/-- The record of a push. -/
def record (f : F) : Queued F :=
  ⟨s.pushed.length, f, if s.pc.isRunning then some s.batch else none⟩

/-- `pendingFunctors_.push_back`, under the lock. -/
def push (f : F) : EventLoop F T :=
  { s with
    pendingFunctors := s.pendingFunctors ++ [s.record f], pushed := s.pushed ++ [s.record f] }

/-- `wakeup`. -/
def wakeup : EventLoop F T := { s with wakeupFd := eventfdWrite s.wakeupFd }

/-- What a thread can do next. The actions without a thread are those of the loop thread. -/
inductive Action (F T : Type) where
  /-- `loop` is called. -/
  | loop
  /-- The condition of the `while` loop. -/
  | test
  /-- `poll` returns. -/
  | poll (active : List Source)
  /-- The next active channel is handled; for the event descriptor this is `handleRead`. -/
  | handle
  | handlerReturn
  /-- `doPendingFunctors` is entered. -/
  | doPendingFunctors
  | swap
  | call
  | functorReturn
  /-- `doPendingFunctors` returns. -/
  | finish
  /-- `queueInLoop`, called by the loop thread. -/
  | queueHere (f : F)
  | wakeHere
  | quitHere
  /-- `queueInLoop`, called by another thread. -/
  | queue (t : T) (f : F)
  | wake (t : T)
  | quit (t : T)

/-- The next active channel. -/
def handle : Except Halt (EventLoop F T) :=
  match s.pc with
  | .handling (.wakeup :: active) => .ok { s with wakeupFd := 0, pc := .handling active }
  | .handling (.other :: active) => .ok { s with pc := .inHandler active }
  | _ => .error .disabled

def handlerReturn : Except Halt (EventLoop F T) :=
  match s.pc with
  | .inHandler active => .ok { s with pc := .handling active }
  | _ => .error .disabled

/-- The next functor of the batch. -/
def call : Except Halt (EventLoop F T) :=
  match s.functors with
  | [] => .error .disabled
  | f :: functors =>
    guarded (s.pc = .calling)
      { s with functors := functors, started := s.started ++ [(s.batch, f)], pc := .inFunctor }

def step : Action F T → Except Halt (EventLoop F T)
  | .loop =>
    guarded (s.pc = .idle)
      { s with pc := .testing, quit := false, mark := s.pushed.length, iterations := 0 }
  | .test => guarded (s.pc = .testing) { s with pc := if s.quit then .idle else .polling }
  | .poll active =>
    -- the kernel reports the event descriptor only when its counter is positive
    guarded (s.pc = .polling ∧ (.wakeup ∈ active → 0 < s.wakeupFd))
      { s with pc := .handling active, iterations := s.iterations + 1 }
  | .handle => s.handle
  | .handlerReturn => s.handlerReturn
  | .doPendingFunctors =>
    guarded (s.pc = .handling []) { s with pc := .swapping, callingPendingFunctors := true }
  | .swap =>
    guarded (s.pc = .swapping)
      { s with
        pc := .calling, functors := s.pendingFunctors, pendingFunctors := [],
        batch := s.batch + 1, swapped := s.pendingFunctors }
  | .call => s.call
  | .functorReturn => guarded (s.pc = .inFunctor) { s with pc := .calling }
  | .finish =>
    guarded (s.pc = .calling ∧ s.functors = [])
      { s with pc := .testing, callingPendingFunctors := false }
  | .queueHere f =>
    guarded (s.pc.isUser)
      { s.push f with pc := if s.callingPendingFunctors then .waking else s.pc }
  | .wakeHere => guarded (s.pc = .waking) { s.wakeup with pc := .inFunctor }
  | .quitHere => guarded (s.pc.isUser) { s with quit := true }
  | .queue t f =>
    guarded (s.caller t = none)
      { s.push f with caller := update s.caller t (some (.queued s.pushed.length)) }
  | .wake t =>
    guarded (s.caller t ≠ none) { s.wakeup with caller := update s.caller t none }
  | .quit t =>
    guarded (s.caller t = none)
      { s with quit := true, caller := update s.caller t (some .quit) }

end EventLoop

end Fishnet
