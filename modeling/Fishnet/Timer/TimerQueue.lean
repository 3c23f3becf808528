import Fishnet.Library.OrderedSet
import Fishnet.Library.Run

/-!
# The timer queue

`TimerQueue` keeps the timers of one event loop in two ordered sets, by expiration in `timers_` and
by address in `activeTimers_`, and one kernel timer, the timerfd, armed for the earliest of them.
The `Timer` objects live on the heap. Their addresses are what the two sets hold, so a dereference
of a deleted timer is a fault of the model (`badAccess`) like a failed assertion.

## What an execution is

All functions of the queue run in the loop thread. Another thread only constructs a `Timer` and
hands it over (`addTimer`, whose `addTimerInLoop` is queued), or queues a cancel. So a run is a
sequence of

* `newTimer`: a `Timer` is constructed, by any thread, at an address the allocator picks,
* `addTimerInLoop` of a timer constructed before,
* `cancelInLoop` of any `TimerId`, also one whose timer is gone or was never added,
* `handleRead`, called when the timerfd is readable, whose callbacks make calls of the three kinds
  above.

`addTimer` called in the loop thread is `newTimer` followed by `addTimerInLoop` of the same timer.

## Clocks

`Timestamp::now()` and the timerfd read one clock. Every function that reads it takes the reading as
an argument. `int64_t` arithmetic on timestamps wraps, and an interval is a value of a type `D` of
which only `interval > 0.0` and the conversion to microseconds are used.

The fields `lastArming` and `trace` are not in the source. They record when the timerfd was armed
last, and which timers were run, added and cancelled.
-/

namespace Fishnet

/-! ## Timestamps and timers -/

/-- Signed 64-bit arithmetic. -/
def int64 (x : ℤ) : ℤ := x.bmod (2 ^ 64)

theorem int64_of_lt {x : ℤ} (h₁ : -2 ^ 63 ≤ x) (h₂ : x < 2 ^ 63) : int64 x = x := by
  rw [int64, Int.bmod_eq_of_le] <;> omega

/-- `microSecondsSinceEpoch_`. -/
abbrev Timestamp := ℤ

/-- What the queue needs to know of a `double` that measures an interval in seconds. -/
class Seconds (D : Type) where
  /-- `interval > 0.0`. -/
  positive : D → Bool
  /-- `static_cast<int64_t>(seconds * KMicroSecondsPerSecond)`. -/
  toMicros : D → ℤ

/-- Seconds as exact fractions. -/
instance : Seconds ℚ where
  positive x := decide (0 < x)
  toMicros x := (x * 1000000).num.tdiv (x * 1000000).den

variable {D : Type} [Seconds D]

/-- `addTime`. -/
def addTime (timestamp : Timestamp) (seconds : D) : Timestamp :=
  int64 (timestamp + Seconds.toMicros seconds)

/-- `Timer`, without its callback. -/
structure Timer (D : Type) where
  expiration : Timestamp
  interval : D
  /-- `repeat_`. -/
  repeats : Bool
  sequence : ℤ

/-- `Timer::restart`. -/
def Timer.restart (t : Timer D) (now : Timestamp) : Timer D :=
  if t.repeats then { t with expiration := addTime now t.interval }
  else { t with expiration := 0 }

/-! ## The timerfd -/

/-- `struct timespec`. -/
structure Timespec where
  sec : ℤ
  nsec : ℤ

/-- `howMuchTimeFromNow`. -/
def howMuchTimeFromNow (expiration now : Timestamp) : Timespec :=
  let microseconds := int64 (expiration - now)
  let microseconds := if microseconds < 100 then 100 else microseconds
  ⟨microseconds.tdiv 1000000, microseconds.tmod 1000000 * 1000⟩

/-- `timerfd_settime` with a relative, one-shot value: the instant the timer is armed for, in
microseconds. A zero value disarms it. -/
def timerfdSettime (now : Timestamp) (value : Timespec) : Option Timestamp :=
  if value.sec = 0 ∧ value.nsec = 0 then none
  else some (now + value.sec * 1000000 + value.nsec / 1000)

/-- `readTimerfd` at the time `now`. An expired timer is disarmed by the read, any other `read`
fails with `EAGAIN`. -/
def readTimerfd (timerfd : Option Timestamp) (now : Timestamp) : Option Timestamp :=
  timerfd.filter fun x ↦ now < x

/-! ## The queue -/

/-- `TimerQueue::Entry`, a timer under its expiration. -/
abbrev Entry := Timestamp ×ₗ ℕ

/-- `TimerQueue::ActiveTimer`, a timer under its address. A `TimerId` has the same two fields. -/
abbrev ActiveTimer := ℕ ×ₗ ℤ

/-- `Entry{expiration, timer}`. -/
def entry (expiration : Timestamp) (timer : ℕ) : Entry := toLex (expiration, timer)

/-- `ActiveTimer{timer, sequence}`. -/
def activeTimer (timer : ℕ) (sequence : ℤ) : ActiveTimer := toLex (timer, sequence)

/-- `UINTPTR_MAX`. -/
def uintptrMax : ℕ := 2 ^ 64 - 1

/-- What happens to a timer. -/
inductive TimerEvent where
  /-- Its callback is started. -/
  | ran (timer : ActiveTimer)
  /-- It enters the queue with this expiration. -/
  | added (timer : ActiveTimer) (expiration : Timestamp)
  /-- It is cancelled. -/
  | cancelled (timer : ActiveTimer)
  deriving DecidableEq

/-- `TimerQueue`, with the `Timer` objects. -/
structure TimerQueue (D : Type) where
  /-- The live `Timer` objects by address. -/
  heap : ℕ → Option (Timer D)
  /-- `Timer::s_numCreated_`. -/
  numCreated : ℤ
  /-- The timers handed to `runInLoop` whose `addTimerInLoop` has not run. -/
  handedOver : List ℕ
  timers : OrderedSet Entry
  activeTimers : OrderedSet ActiveTimer
  callingExpiredTimers : Bool
  cancelingTimers : OrderedSet ActiveTimer
  /-- The instant the timerfd is armed for. It has expired unread when that instant is past. -/
  timerfd : Option Timestamp
  /-- The clock when the timerfd was armed last. -/
  lastArming : Option Timestamp
  trace : List TimerEvent

namespace TimerQueue

/-- The constructor's state: no timers, and the timerfd as `timerfd_create` leaves it. -/
def new : TimerQueue D where
  heap _ := none
  numCreated := 0
  handedOver := []
  timers := ∅
  activeTimers := ∅
  callingExpiredTimers := false
  cancelingTimers := ∅
  timerfd := none
  lastArming := none
  trace := []

variable (q : TimerQueue D)

/-- Read the `Timer` at an address. -/
def deref (timer : ℕ) : Checked (Timer D) :=
  match q.heap timer with
  | some t => .ok t
  | none => .error .badAccess

/-- Overwrite, construct or `delete` the `Timer` at an address. -/
def store (timer : ℕ) (t : Option (Timer D)) : TimerQueue D :=
  { q with heap := Function.update q.heap timer t }

def emit (e : TimerEvent) : TimerQueue D := { q with trace := q.trace ++ [e] }

/-- `new Timer(cb, when, interval)`, placed at `timer`. -/
def newTimer (timer : ℕ) (expiration : Timestamp) (interval : D) : TimerQueue D :=
  { q.store timer (some ⟨expiration, interval, Seconds.positive interval, q.numCreated + 1⟩) with
    numCreated := q.numCreated + 1
    handedOver := q.handedOver ++ [timer] }

/-- `resetTimerfd`. -/
def resetTimerfd (expiration now : Timestamp) : TimerQueue D :=
  { q with
    timerfd := timerfdSettime now (howMuchTimeFromNow expiration now)
    lastArming := some now }

/-- `timers_.begin() == timers_.end() || when < timers_.begin()->first`. -/
def earliestChanged (expiration : Timestamp) : Bool :=
  q.timers.min?.all fun e ↦ decide (expiration < (ofLex e).1)

/-- `TimerQueue::insert`. -/
def insert (timer : ℕ) : Checked (Bool × TimerQueue D) := do
  assert (q.timers.size = q.activeTimers.size)
  let t ← q.deref timer
  assert (entry t.expiration timer ∉ q.timers)
  assert (activeTimer timer t.sequence ∉ q.activeTimers)
  let q' : TimerQueue D :=
    { q with
      timers := q.timers.insert (entry t.expiration timer)
      activeTimers := q.activeTimers.insert (activeTimer timer t.sequence) }
  assert (q'.timers.size = q'.activeTimers.size)
  return (q.earliestChanged t.expiration, q')

/-- `TimerQueue::addTimerInLoop`. -/
def addTimerInLoop (timer : ℕ) (now : Timestamp) :
    Checked (TimerQueue D) := do
  let r ← q.insert timer
  let t ← r.2.deref timer
  let q' : TimerQueue D := { r.2 with handedOver := r.2.handedOver.erase timer }
  let q' := q'.emit (.added (activeTimer timer t.sequence) t.expiration)
  return if r.1 then q'.resetTimerfd t.expiration now else q'

/-- `TimerQueue::cancelInLoop`. -/
def cancelInLoop (timerId : ActiveTimer) : Checked (TimerQueue D) := do
  assert (q.timers.size = q.activeTimers.size)
  let q := q.emit (.cancelled timerId)
  if timerId ∈ q.activeTimers then
    let timer := (ofLex timerId).1
    let t ← q.deref timer
    assert (entry t.expiration timer ∈ q.timers)
    let q' : TimerQueue D :=
      { q.store timer none with
        timers := q.timers.erase (entry t.expiration timer)
        activeTimers := q.activeTimers.erase timerId }
    assert (q'.timers.size = q'.activeTimers.size)
    return q'
  else
    assert (q.timers.size = q.activeTimers.size)
    return if q.callingExpiredTimers then
      { q with cancelingTimers := q.cancelingTimers.insert timerId }
    else q

/-! ## Handling an expired timerfd -/

/-- `Entry sentry{now, reinterpret_cast<Timer*>(UINTPTR_MAX)}`. -/
def sentry (now : Timestamp) : Entry := entry now uintptrMax

/-- One round of the loop of `getExpired`. -/
def deactivate (e : Entry) : Checked (TimerQueue D) := do
  let timer := (ofLex e).2
  let t ← q.deref timer
  assert (activeTimer timer t.sequence ∈ q.activeTimers)
  return { q with activeTimers := q.activeTimers.erase (activeTimer timer t.sequence) }

/-- `TimerQueue::getExpired`. -/
def getExpired (now : Timestamp) :
    Checked (List Entry × TimerQueue D) := do
  assert (q.timers.size = q.activeTimers.size)
  let expired := q.timers.below (sentry now)
  let rest := q.timers.notBelow (sentry now)
  assert (rest.min?.all fun e ↦ decide (now < (ofLex e).1))
  let q' ← runAll deactivate { q with timers := rest } expired
  assert (q'.timers.size = q'.activeTimers.size)
  return (expired, q')

/-- One round of the loop of `reset`. -/
def resetOne (now : Timestamp) (q : TimerQueue D) (e : Entry) : Checked (TimerQueue D) := do
  let timer := (ofLex e).2
  let t ← q.deref timer
  if t.repeats ∧ activeTimer timer t.sequence ∉ q.cancelingTimers then
    let r ← (q.store timer (some (t.restart now))).insert timer
    return r.2
  else
    return q.store timer none

/-- `nextExpire` at the end of `reset`, not valid when there are no timers. -/
def nextExpire : Checked Timestamp :=
  match q.timers.min? with
  | none => .ok 0
  | some e => (fun t ↦ t.expiration) <$> q.deref (ofLex e).2

/-- `TimerQueue::reset`, the timerfd being armed at `armAt`. -/
def reset (expired : List Entry) (now armAt : Timestamp) :
    Checked (TimerQueue D) := do
  let q ← runAll (resetOne now) q expired
  let next ← q.nextExpire
  return if 0 < next then q.resetTimerfd next armAt else q

/-! ## Calls and steps -/

/-- A call made in the loop thread, or the construction of a timer by any thread. -/
inductive Call (D : Type) where
  | newTimer (timer : ℕ) (expiration : Timestamp) (interval : D)
  | addTimerInLoop (timer : ℕ) (now : Timestamp)
  | cancelInLoop (timerId : ActiveTimer)

/-- `TimerQueue::addTimer` in the loop thread: `runInLoop` runs `addTimerInLoop` at once. -/
def Call.addTimer (timer : ℕ) (expiration : Timestamp) (interval : D) (now : Timestamp) :
    List (Call D) :=
  [.newTimer timer expiration interval, .addTimerInLoop timer now]

def call : Call D → Checked (TimerQueue D)
  | .newTimer timer expiration interval => .ok (q.newTimer timer expiration interval)
  | .addTimerInLoop timer now => q.addTimerInLoop timer now
  | .cancelInLoop timerId => q.cancelInLoop timerId

/-- The callback phase of `handleRead`, step by step: a callback is started, or a call is made. -/
inductive PhaseStep (D : Type) where
  | run (e : Entry)
  | call (c : Call D)

/-- `it.second->run()` reads the timer, which must not have been deleted. -/
def phaseStep : PhaseStep D → Checked (TimerQueue D)
  | .run e => do
    let t ← q.deref (ofLex e).2
    return q.emit (.ran (activeTimer (ofLex e).2 t.sequence))
  | .call c => q.call c

/-- The steps of a callback phase in which the timer of `e` makes the calls `callbacks e`. -/
def phase (callbacks : Entry → List (Call D)) (expired : List Entry) : List (PhaseStep D) :=
  expired.flatMap fun e ↦ .run e :: (callbacks e).map .call

/-- `handleRead` up to the first callback. `now` is its `Timestamp::now()`, `readAt` the time at
which the timerfd is read. -/
def beginRead (now readAt : Timestamp) :
    Checked (List Entry × TimerQueue D) := do
  let r ← ({ q with timerfd := readTimerfd q.timerfd readAt } : TimerQueue D).getExpired now
  return (r.1, { r.2 with callingExpiredTimers := true, cancelingTimers := ∅ })

/-- `handleRead` after the last callback. -/
def endRead (expired : List Entry) (now armAt : Timestamp) : Checked (TimerQueue D) :=
  ({ q with callingExpiredTimers := false } : TimerQueue D).reset expired now armAt

/-- `TimerQueue::handleRead`. -/
def handleRead (now readAt armAt : Timestamp)
    (callbacks : Entry → List (Call D)) : Checked (TimerQueue D) := do
  let r ← q.beginRead now readAt
  let q ← runAll phaseStep r.2 (phase callbacks r.1)
  q.endRead r.1 now armAt

/-- One step of the loop as far as its timer queue is concerned. -/
inductive Act (D : Type) where
  | call (c : Call D)
  | handleRead (now readAt armAt : Timestamp) (callbacks : Entry → List (Call D))

def step : Act D → Checked (TimerQueue D)
  | .call c => q.call c
  | .handleRead now readAt armAt callbacks => q.handleRead now readAt armAt callbacks

/-! ## The assumptions about callers and allocator -/

/-- A new timer gets an address that holds no live timer, and `addTimerInLoop` is called once for
each constructed timer. -/
def Lawful : Call D → Prop
  | .newTimer timer _ _ => q.heap timer = none ∧ timer < uintptrMax
  | .addTimerInLoop timer _ => timer ∈ q.handedOver
  | .cancelInLoop _ => True

instance : ∀ c, Decidable (q.Lawful c)
  | .newTimer timer _ _ => inferInstanceAs (Decidable (q.heap timer = none ∧ timer < uintptrMax))
  | .addTimerInLoop timer _ => inferInstanceAs (Decidable (timer ∈ q.handedOver))
  | .cancelInLoop _ => inferInstanceAs (Decidable True)

def LawfulPhase : PhaseStep D → Prop
  | .run _ => True
  | .call c => q.Lawful c

instance : ∀ p, Decidable (q.LawfulPhase p)
  | .run _ => inferInstanceAs (Decidable True)
  | .call c => inferInstanceAs (Decidable (q.Lawful c))

/-- The calls of a step, those made by callbacks included, are lawful where they are made. -/
def LawfulAct : Act D → Prop
  | .call c => q.Lawful c
  | .handleRead now readAt _ callbacks => ∀ r, q.beginRead now readAt = .ok r →
      Along phaseStep LawfulPhase r.2 (phase callbacks r.1)

instance : ∀ act, Decidable (q.LawfulAct act)
  | .call c => inferInstanceAs (Decidable (q.Lawful c))
  | .handleRead now readAt _ callbacks => inferInstanceAs (Decidable (∀ r,
      q.beginRead now readAt = .ok r → Along phaseStep LawfulPhase r.2 (phase callbacks r.1)))

end TimerQueue

end Fishnet
