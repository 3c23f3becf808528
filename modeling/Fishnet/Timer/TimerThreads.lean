import Fishnet.Timer.TimerCancel

/-!
# The timer queue among threads

`addTimer` and `cancel` may be called in any thread. In the loop thread `runInLoop` calls
`addTimerInLoop` or `cancelInLoop` at once. In another thread it queues the call for the loop,
behind the calls already there. So the order in which the calls reach the queue can differ from the
order in which they were made.

The model interleaves the loop thread and the others. `handleRead` is taken apart at its callbacks,
and `addTimer` of another thread at the two places where the loop can come in: after `new Timer`,
and after the hand-over, before `timer->sequence()` is read. That read is of memory that may have
been freed, or used for another timer since. The allocator picks a free address.

A `TimerId` is the default one or was returned by `addTimer`, and only such a `TimerId` is
cancelled. The field `ids` collects them.

## Main results

* `TimerThreads.step_cases`: what an action does to the state.
* `TimerThreads.Sound.step`: the queued calls are those of the timers handed over, each once.
-/

namespace Fishnet

open Function List

/-! ## The state -/

/-- A call queued for the loop thread. -/
inductive TimerFunctor where
  | addTimerInLoop (timer : ℕ)
  | cancelInLoop (timerId : ActiveTimer)
  deriving DecidableEq

/-- A `handleRead` between its callbacks. -/
structure Reading where
  now : Timestamp
  expired : List Entry
  /-- The rest of the loop over `expired`. -/
  remaining : List Entry

/-- An `addTimer` of another thread, from the construction of its timer on. -/
structure Adding where
  timer : ℕ
  /-- The number that its timer was given. -/
  sequence : ℤ
  /-- `runInLoop` has returned. -/
  handedOver : Bool

structure TimerThreads (D T : Type) where
  queue : TimerQueue D
  reading : Option Reading
  /-- `EventLoop::pendingFunctors_`, as far as the timer queue is concerned. -/
  functors : List TimerFunctor
  adding : T → Option Adding
  ids : List ActiveTimer

namespace TimerFunctor

/-- The timer that a queued call adds. -/
def adds : TimerFunctor → Option ℕ
  | .addTimerInLoop timer => some timer
  | .cancelInLoop _ => none

/-- The call in the loop thread. -/
def call {D : Type} (now : Timestamp) : TimerFunctor → TimerQueue.Call D
  | .addTimerInLoop timer => .addTimerInLoop timer now
  | .cancelInLoop timerId => .cancelInLoop timerId

end TimerFunctor

namespace TimerThreads

variable {D T : Type}

/-- No timers, and the default `TimerId`. -/
def new : TimerThreads D T where
  queue := .new
  reading := none
  functors := []
  adding _ := none
  ids := [activeTimer 0 0]

/-- The loop thread runs user code: outside `handleRead`, or in a callback. -/
def inUserCode (s : TimerThreads D T) : Bool :=
  s.reading.all fun r ↦ decide (r.remaining.length < r.expired.length)

/-- The allocator can return this address. -/
def Free (s : TimerThreads D T) (timer : ℕ) : Prop := s.queue.heap timer = none ∧ timer < uintptrMax

instance (s : TimerThreads D T) (timer : ℕ) : Decidable (s.Free timer) :=
  decidable_of_iff ((s.queue.heap timer).isNone ∧ timer < uintptrMax)
    (by rw [Free, Option.isNone_iff_eq_none])

/-! ## The actions -/

inductive Action (D T : Type) where
  /-- `addTimer`, in the loop thread. -/
  | addTimer (timer : ℕ) (expiration : Timestamp) (interval : D) (now : Timestamp)
  /-- `cancel`, in the loop thread. -/
  | cancel (timerId : ActiveTimer)
  /-- The loop thread runs the next queued call. -/
  | functor (now : Timestamp)
  /-- `handleRead`, up to the first callback. -/
  | beginRead (now readAt : Timestamp)
  /-- The next callback is started. -/
  | run
  /-- `handleRead`, after the last callback. -/
  | endRead (armAt : Timestamp)
  /-- `addTimer` in another thread: the timer is constructed. -/
  | create (t : T) (timer : ℕ) (expiration : Timestamp) (interval : D)
  /-- It is handed over. -/
  | handOver (t : T)
  /-- Its sequence number is read, and `addTimer` returns. -/
  | readSequence (t : T)
  /-- `cancel`, in another thread. -/
  | cancelFrom (t : T) (timerId : ActiveTimer)

variable [Seconds D] [DecidableEq T] (s : TimerThreads D T)

/-- The next callback. -/
def run : Except Halt (TimerThreads D T) :=
  match s.reading with
  | some ⟨now, expired, e :: remaining⟩ => attempt True do
    let q ← s.queue.phaseStep (.run e)
    return { s with queue := q, reading := some ⟨now, expired, remaining⟩ }
  | _ => .error .disabled

/-- The end of `handleRead`. -/
def endRead (armAt : Timestamp) : Except Halt (TimerThreads D T) :=
  match s.reading with
  | some ⟨now, expired, []⟩ => attempt True do
    let q ← s.queue.endRead expired now armAt
    return { s with queue := q, reading := none }
  | _ => .error .disabled

/-- The next queued call. -/
def functor (now : Timestamp) : Except Halt (TimerThreads D T) :=
  match s.functors with
  | [] => .error .disabled
  | f :: functors => attempt (s.reading.isNone) do
    let q ← s.queue.call (f.call now)
    return { s with queue := q, functors := functors }

def handOver (t : T) : Except Halt (TimerThreads D T) :=
  match s.adding t with
  | some ⟨timer, sequence, false⟩ => .ok { s with
      functors := s.functors ++ [.addTimerInLoop timer]
      adding := update s.adding t (some ⟨timer, sequence, true⟩) }
  | _ => .error .disabled

def readSequence (t : T) : Except Halt (TimerThreads D T) :=
  match s.adding t with
  | some ⟨timer, _, true⟩ => attempt True do
    let u ← s.queue.deref timer
    return { s with
      adding := update s.adding t none, ids := s.ids ++ [activeTimer timer u.sequence] }
  | _ => .error .disabled

def step : Action D T → Except Halt (TimerThreads D T)
  | .addTimer timer expiration interval now => attempt (s.inUserCode ∧ s.Free timer) do
    let q ← (s.queue.newTimer timer expiration interval).addTimerInLoop timer now
    let u ← q.deref timer
    return { s with queue := q, ids := s.ids ++ [activeTimer timer u.sequence] }
  | .cancel timerId => attempt (s.inUserCode ∧ timerId ∈ s.ids) do
    let q ← s.queue.cancelInLoop timerId
    return { s with queue := q }
  | .functor now => s.functor now
  | .beginRead now readAt => attempt (s.reading.isNone) do
    let r ← s.queue.beginRead now readAt
    return { s with queue := r.2, reading := some ⟨now, r.1, r.1⟩ }
  | .run => s.run
  | .endRead armAt => s.endRead armAt
  | .create t timer expiration interval =>
    guarded ((s.adding t).isNone ∧ s.Free timer) { s with
      queue := s.queue.newTimer timer expiration interval
      adding := update s.adding t (some ⟨timer, s.queue.numCreated + 1, false⟩) }
  | .handOver t => s.handOver t
  | .readSequence t => s.readSequence t
  | .cancelFrom t timerId =>
    guarded ((s.adding t).isNone ∧ timerId ∈ s.ids) { s with
      functors := s.functors ++ [.cancelInLoop timerId] }

end TimerThreads

open TimerEvent TimerQueue

/-! ## What an action does -/

namespace TimerThreads

variable {D T : Type} {s s' : TimerThreads D T}

/-- The timers of the batch under way. -/
def out (reading : Option Reading) : List ℕ := reading.elim [] fun r ↦ addresses r.expired

variable [Seconds D] [DecidableEq T]

/-- The cases of an action that goes through. -/
inductive StepCase (s : TimerThreads D T) : Action D T → TimerThreads D T → Prop
  | addTimer {a : ℕ} {w now : Timestamp} {i : D} {q' : TimerQueue D} (hfree : s.Free a)
      (hcall : CallCase (s.queue.newTimer a w i) (.addTimerInLoop a now) q') :
      StepCase s (.addTimer a w i now)
        { s with queue := q', ids := s.ids ++ [activeTimer a (s.queue.numCreated + 1)] }
  | cancel {id : ActiveTimer} {q' : TimerQueue D} (hid : id ∈ s.ids)
      (hcall : CallCase s.queue (.cancelInLoop id) q') :
      StepCase s (.cancel id) { s with queue := q' }
  | functor {f : TimerFunctor} {functors : List TimerFunctor} {now : Timestamp} {q' : TimerQueue D}
      (hreading : s.reading = none) (hfunctors : s.functors = f :: functors)
      (hcall : CallCase s.queue (f.call now) q') :
      StepCase s (.functor now) { s with queue := q', functors := functors }
  | beginRead {now readAt : Timestamp} {active : OrderedSet ActiveTimer}
      (hreading : s.reading = none)
      (hinv : (s.queue.opened now readAt active).Inv (addresses (s.queue.expired now))) :
      StepCase s (.beginRead now readAt) { s with
        queue := s.queue.opened now readAt active
        reading := some ⟨now, s.queue.expired now, s.queue.expired now⟩ }
  | run {now : Timestamp} {expired remaining : List Entry} {e : Entry} {u : Timer D}
      (hreading : s.reading = some ⟨now, expired, e :: remaining⟩)
      (hu : s.queue.heap (ofLex e).2 = some u) :
      StepCase s .run { s with
        queue := s.queue.emit (.ran (activeTimer (ofLex e).2 u.sequence))
        reading := some ⟨now, expired, remaining⟩ }
  | endRead {now armAt x : Timestamp} {expired : List Entry} {q₃ : TimerQueue D} {b : Bool}
      (hreading : s.reading = some ⟨now, expired, []⟩)
      (hresets : Resets now (addresses expired) { s.queue with callingExpiredTimers := false } q₃)
      (hinv : q₃.Inv []) :
      StepCase s (.endRead armAt) { s with queue := armIf b q₃ x armAt, reading := none }
  | create {t : T} {a : ℕ} {w : Timestamp} {i : D} (ht : s.adding t = none) (hfree : s.Free a) :
      StepCase s (.create t a w i) { s with
        queue := s.queue.newTimer a w i
        adding := update s.adding t (some ⟨a, s.queue.numCreated + 1, false⟩) }
  | handOver {t : T} {a : ℕ} {n : ℤ} (ht : s.adding t = some ⟨a, n, false⟩) :
      StepCase s (.handOver t) { s with
        functors := s.functors ++ [.addTimerInLoop a]
        adding := update s.adding t (some ⟨a, n, true⟩) }
  | readSequence {t : T} {a : ℕ} {n : ℤ} {u : Timer D} (ht : s.adding t = some ⟨a, n, true⟩)
      (hu : s.queue.heap a = some u) :
      StepCase s (.readSequence t) { s with
        adding := update s.adding t none, ids := s.ids ++ [activeTimer a u.sequence] }
  | cancelFrom {t : T} {id : ActiveTimer} (hid : id ∈ s.ids) :
      StepCase s (.cancelFrom t id) { s with functors := s.functors ++ [.cancelInLoop id] }

/-- The queue and the batch under way. -/
structure QueueSound (q : TimerQueue D) (reading : Option Reading) : Prop where
  inv : q.Inv (out reading)
  fresh : Fresh q
  calling : q.callingExpiredTimers = reading.isSome
  remaining : ∀ r, reading = some r → ∀ e ∈ r.remaining, e ∈ r.expired

/-- The queued calls and the threads in `addTimer`: a timer waits for its `addTimerInLoop` in one
place. -/
structure Handed (functors : List TimerFunctor) (adding : T → Option Adding) (handedOver : List ℕ) :
    Prop where
  adds : ∀ a, .addTimerInLoop a ∈ functors → a ∈ handedOver
  nodup : (functors.filterMap TimerFunctor.adds).Nodup
  created : ∀ t x, adding t = some x → x.handedOver = false →
    x.timer ∈ handedOver ∧ .addTimerInLoop x.timer ∉ functors
  distinct : ∀ t t' x x', adding t = some x → adding t' = some x' → x.handedOver = false →
    x'.handedOver = false → x.timer = x'.timer → t = t'

/-- Only a `TimerId` that was given out is cancelled. -/
structure Known (q : TimerQueue D) (functors : List TimerFunctor) (ids : List ActiveTimer) :
    Prop where
  le : ∀ id ∈ ids, (ofLex id).2 ≤ q.numCreated
  queued : ∀ id, .cancelInLoop id ∈ functors → id ∈ ids
  cancelled : ∀ id, .cancelled id ∈ q.trace → id ∈ ids
  noted : ∀ id ∈ q.cancelingTimers, id ∈ ids

/-- **The invariant of the threads.** -/
structure Sound (s : TimerThreads D T) : Prop where
  queue : QueueSound s.queue s.reading
  handed : Handed s.functors s.adding s.queue.handedOver
  known : Known s.queue s.functors s.ids

omit [Seconds D] [DecidableEq T] in
theorem Sound.lawful (h : Sound s) {f : TimerFunctor} (hf : f ∈ s.functors) (now : Timestamp) :
    s.queue.Lawful (f.call now) := by
  cases f with
  | addTimerInLoop a => exact h.handed.adds a hf
  | cancelInLoop id => exact trivial

omit [Seconds D] in
theorem heap_of_deref {q : TimerQueue D} {a : ℕ} {u : Timer D} (h : q.deref a = .ok u) :
    q.heap a = some u := by
  unfold TimerQueue.deref at h
  split at h
  · cases h
    assumption
  · cases h

/-- **What an action does.** -/
theorem step_cases {a : Action D T} (h : Sound s) (hs : s.step a = .ok s') : StepCase s a s' := by
  have hinv := h.queue.inv
  cases a with
  | addTimer a w i now =>
    obtain ⟨⟨-, hfree⟩, hs⟩ := attempt_eq_ok.mp hs
    obtain ⟨q', hq', hs⟩ := bind_eq_ok.mp hs
    obtain ⟨u, hu, hs⟩ := bind_eq_ok.mp hs
    have hnew := (CallCase.newTimer (q := s.queue) w i hfree.1 hfree.2).inv hinv
    have hcase := callCase_of_eq_ok (c := .addTimerInLoop a now) hnew
      (mem_append_right _ mem_cons_self) hq'
    have hseq : u.sequence = s.queue.numCreated + 1 := by
      cases hcase
      have hheap := heap_of_deref hu
      rw [armIf_heap] at hheap
      change update s.queue.heap a _ a = some u at hheap
      rw [update_self] at hheap
      exact congrArg Timer.sequence (Option.some.inj hheap).symm
    cases hs
    rw [hseq]
    exact .addTimer hfree hcase
  | cancel id =>
    obtain ⟨⟨-, hid⟩, hs⟩ := attempt_eq_ok.mp hs
    obtain ⟨q', hq', hs⟩ := bind_eq_ok.mp hs
    cases hs
    exact .cancel hid (callCase_of_eq_ok (c := .cancelInLoop id) hinv trivial hq')
  | functor now =>
    change s.functor now = .ok s' at hs
    unfold TimerThreads.functor at hs
    split at hs
    · cases hs
    · rename_i f functors hfunctors
      obtain ⟨hreading, hs⟩ := attempt_eq_ok.mp hs
      obtain ⟨q', hq', hs⟩ := bind_eq_ok.mp hs
      cases hs
      have hlawful := h.lawful (hfunctors ▸ mem_cons_self : f ∈ s.functors) now
      exact .functor (Option.isNone_iff_eq_none.mp hreading) hfunctors
        (callCase_of_eq_ok hinv hlawful hq')
  | beginRead now readAt =>
    obtain ⟨hreading, hs⟩ := attempt_eq_ok.mp hs
    obtain ⟨r, hr, hs⟩ := bind_eq_ok.mp hs
    cases hs
    rw [Option.isNone_iff_eq_none] at hreading
    rw [hreading] at hinv
    obtain ⟨active, hok, hopened⟩ := beginRead_spec hinv now readAt
    obtain rfl := Except.ok.inj (hok.symm.trans hr)
    exact .beginRead hreading hopened
  | run =>
    change s.run = .ok s' at hs
    unfold TimerThreads.run at hs
    split at hs
    · rename_i now expired e remaining hreading
      obtain ⟨-, hs⟩ := attempt_eq_ok.mp hs
      obtain ⟨q', hq', hs⟩ := bind_eq_ok.mp hs
      cases hs
      obtain ⟨u, hu, hq'⟩ := bind_eq_ok.mp hq'
      cases hq'
      exact .run hreading (heap_of_deref hu)
    · cases hs
  | endRead armAt =>
    change s.endRead armAt = .ok s' at hs
    unfold TimerThreads.endRead at hs
    split at hs
    · rename_i now expired hreading
      obtain ⟨-, hs⟩ := attempt_eq_ok.mp hs
      obtain ⟨q', hq', hs⟩ := bind_eq_ok.mp hs
      cases hs
      rw [hreading] at hinv
      obtain ⟨q₃, hreset, hresets, hidx⟩ := reset_spec
        (q := { s.queue with callingExpiredTimers := false }) hinv now armAt
      obtain rfl := Except.ok.inj (hreset.symm.trans hq')
      refine .endRead hreading hresets ?_
      rwa [TimerQueue.Inv, append_nil]
    · cases hs
  | create t a w i =>
    obtain ⟨⟨ht, hfree⟩, rfl⟩ := guarded_eq_ok.mp hs
    exact .create (Option.isNone_iff_eq_none.mp ht) hfree
  | handOver t =>
    change s.handOver t = .ok s' at hs
    unfold TimerThreads.handOver at hs
    split at hs
    · cases hs
      exact .handOver ‹_›
    · cases hs
  | readSequence t =>
    change s.readSequence t = .ok s' at hs
    unfold TimerThreads.readSequence at hs
    split at hs
    · obtain ⟨-, hs⟩ := attempt_eq_ok.mp hs
      obtain ⟨u, hu, hs⟩ := bind_eq_ok.mp hs
      cases hs
      exact .readSequence ‹_› (heap_of_deref hu)
    · cases hs
  | cancelFrom t id =>
    obtain ⟨⟨-, hid⟩, rfl⟩ := guarded_eq_ok.mp hs
    exact .cancelFrom hid

/-! ## Timers handed over -/

section Handed

variable {functors : List TimerFunctor} {adding : T → Option Adding} {l l' : List ℕ} {t : T} {a : ℕ}
  {n : ℤ} {id : ActiveTimer}

section

variable (h : Handed functors adding l)
include h

omit [DecidableEq T] in
theorem Handed.mono (hl : ∀ a ∈ l, a ∈ l') :
    Handed functors adding l' where
  adds a ha := hl a (h.adds a ha)
  nodup := h.nodup
  created t x ht hx := ⟨hl _ (h.created t x ht hx).1, (h.created t x ht hx).2⟩
  distinct := h.distinct

theorem Handed.create (ha : a ∉ l) :
    Handed functors (update adding t (some ⟨a, n, false⟩)) (l ++ [a]) := by
  refine ⟨fun b hb ↦ mem_append_left _ (h.adds b hb), h.nodup, fun t' x ht' hx ↦ ?_,
    fun t₁ t₂ x₁ x₂ ht₁ ht₂ hx₁ hx₂ heq ↦ ?_⟩
  · rcases eq_or_ne t' t with rfl | hne
    · cases (update_self ..).symm.trans ht'
      exact ⟨mem_append_right _ mem_cons_self, fun hmem ↦ ha (h.adds a hmem)⟩
    · rw [update_of_ne hne] at ht'
      obtain ⟨hmem, hno⟩ := h.created t' x ht' hx
      exact ⟨mem_append_left _ hmem, hno⟩
  · -- the new timer is at an address that no other has
    rcases eq_or_ne t₁ t with rfl | hne₁
    · cases (update_self ..).symm.trans ht₁
      by_contra hne₂
      rw [update_of_ne (Ne.symm hne₂)] at ht₂
      apply ha
      rw [show a = x₂.timer from heq]
      exact (h.created t₂ x₂ ht₂ hx₂).1
    · rw [update_of_ne hne₁] at ht₁
      rcases eq_or_ne t₂ t with rfl | hne₂
      · cases (update_self ..).symm.trans ht₂
        refine absurd ?_ ha
        rw [← show x₁.timer = a from heq]
        exact (h.created t₁ x₁ ht₁ hx₁).1
      · rw [update_of_ne hne₂] at ht₂
        exact h.distinct t₁ t₂ x₁ x₂ ht₁ ht₂ hx₁ hx₂ heq

theorem Handed.handOver (ht : adding t = some ⟨a, n, false⟩) :
    Handed (functors ++ [.addTimerInLoop a]) (update adding t (some ⟨a, n, true⟩)) l := by
  obtain ⟨ha, hno⟩ := h.created t _ ht rfl
  have hold {t' : T} {x : Adding} (ht' : update adding t (some ⟨a, n, true⟩) t' = some x)
      (hx : x.handedOver = false) : t' ≠ t ∧ adding t' = some x := by
    rcases eq_or_ne t' t with rfl | hne
    · cases (update_self ..).symm.trans ht'
      cases hx
    · exact ⟨hne, (update_of_ne hne ..).symm.trans ht'⟩
  refine ⟨fun b hb ↦ ?_, ?_, fun t' x ht' hx ↦ ?_, fun t₁ t₂ x₁ x₂ ht₁ ht₂ hx₁ hx₂ heq ↦ ?_⟩
  · rcases mem_append.mp hb with hb | hb
    · exact h.adds b hb
    · cases mem_singleton.mp hb
      exact ha
  · rw [filterMap_append, nodup_append]
    refine ⟨h.nodup, nodup_singleton _, fun b hb c hc heq ↦ hno ?_⟩
    obtain ⟨f, hf, hadds⟩ := mem_filterMap.mp hb
    cases mem_singleton.mp hc
    subst heq
    cases f with
    | addTimerInLoop b =>
      cases hadds
      exact hf
    | cancelInLoop id => cases hadds
  · obtain ⟨hne, ht'⟩ := hold ht' hx
    obtain ⟨hmem, hno'⟩ := h.created t' x ht' hx
    refine ⟨hmem, fun hin ↦ ?_⟩
    rcases mem_append.mp hin with hin | hin
    · exact hno' hin
    · rw [mem_singleton, TimerFunctor.addTimerInLoop.injEq] at hin
      exact hne (h.distinct t' t x _ ht' ht hx rfl hin)
  · exact h.distinct t₁ t₂ x₁ x₂ (hold ht₁ hx₁).2 (hold ht₂ hx₂).2 hx₁ hx₂ heq

end

omit [DecidableEq T] in
theorem Handed.pop_add (h : Handed (.addTimerInLoop a :: functors) adding l) :
    Handed functors adding (l.erase a) := by
  obtain ⟨hno, hnodup⟩ := nodup_cons.mp h.nodup
  have hne {b : ℕ} (hb : .addTimerInLoop b ∈ functors) : b ≠ a := by
    rintro rfl
    exact hno (mem_filterMap.mpr ⟨_, hb, rfl⟩)
  refine ⟨fun b hb ↦ ?_, hnodup, fun t x ht hx ↦ ?_, h.distinct⟩
  · exact (mem_erase_of_ne (hne hb)).mpr (h.adds b (mem_cons_of_mem _ hb))
  · obtain ⟨hmem, hnot⟩ := h.created t x ht hx
    have hxa : x.timer ≠ a := fun heq ↦ hnot (by rw [heq]; exact mem_cons_self)
    exact ⟨(mem_erase_of_ne hxa).mpr hmem, fun hin ↦ hnot (mem_cons_of_mem _ hin)⟩

omit [DecidableEq T] in
theorem Handed.pop_cancel (h : Handed (.cancelInLoop id :: functors) adding l) :
    Handed functors adding l where
  adds a ha := h.adds a (mem_cons_of_mem _ ha)
  nodup := h.nodup
  created t x ht hx := ⟨(h.created t x ht hx).1, fun hin ↦
    (h.created t x ht hx).2 (mem_cons_of_mem _ hin)⟩
  distinct := h.distinct

omit [DecidableEq T] in
theorem Handed.push_cancel (h : Handed functors adding l) :
    Handed (functors ++ [.cancelInLoop id]) adding l := by
  have hmem {a : ℕ} (ha : .addTimerInLoop a ∈ functors ++ [.cancelInLoop id]) :
      .addTimerInLoop a ∈ functors := by
    rcases mem_append.mp ha with ha | ha
    · exact ha
    · cases mem_singleton.mp ha
  refine ⟨fun a ha ↦ h.adds a (hmem ha), ?_, fun t x ht hx ↦ ?_, h.distinct⟩
  · rw [filterMap_append]
    exact (append_nil _).symm ▸ h.nodup
  · exact ⟨(h.created t x ht hx).1, fun hin ↦ (h.created t x ht hx).2 (hmem hin)⟩

theorem Handed.read (h : Handed functors adding l) : Handed functors (update adding t none) l := by
  have hold {t' : T} {x : Adding} (ht' : update adding t none t' = some x) :
      adding t' = some x := by
    rcases eq_or_ne t' t with rfl | hne
    · cases (update_self ..).symm.trans ht'
    · exact (update_of_ne hne ..).symm.trans ht'
  exact ⟨h.adds, h.nodup, fun t' x ht' ↦ h.created t' x (hold ht'),
    fun t₁ t₂ x₁ x₂ ht₁ ht₂ ↦ h.distinct t₁ t₂ x₁ x₂ (hold ht₁) (hold ht₂)⟩

end Handed

/-! ## Cancels of known timers -/

section Known

variable {q q' : TimerQueue D} {functors functors' : List TimerFunctor} {ids : List ActiveTimer}
  {id : ActiveTimer}

variable (h : Known q functors ids)
include h

omit [Seconds D] in
theorem Known.of_trace (hnum : q.numCreated ≤ q'.numCreated)
    (htrace : ∀ id, .cancelled id ∈ q'.trace → .cancelled id ∈ q.trace ∨ id ∈ ids)
    (hnoted : ∀ id ∈ q'.cancelingTimers, id ∈ q.cancelingTimers ∨ id ∈ ids) :
    Known q' functors ids where
  le id hid := (h.le id hid).trans hnum
  queued := h.queued
  cancelled id hid := (htrace id hid).elim (h.cancelled id) fun hid ↦ hid
  noted id hid := (hnoted id hid).elim (h.noted id) fun hid ↦ hid

omit [Seconds D] in
theorem Known.queue
    (hqueued : ∀ id, .cancelInLoop id ∈ functors' → .cancelInLoop id ∈ functors ∨ id ∈ ids) :
    Known q functors' ids where
  le := h.le
  queued id hid := (hqueued id hid).elim (h.queued id) fun hid ↦ hid
  cancelled := h.cancelled
  noted := h.noted

omit [Seconds D] in
theorem Known.give (hid : (ofLex id).2 ≤ q.numCreated) :
    Known q functors (ids ++ [id]) where
  le id' hid' := by
    rcases mem_append.mp hid' with hid' | hid'
    · exact h.le id' hid'
    · rw [mem_singleton.mp hid']
      exact hid
  queued id' hid' := mem_append_left _ (h.queued id' hid')
  cancelled id' hid' := mem_append_left _ (h.cancelled id' hid')
  noted id' hid' := mem_append_left _ (h.noted id' hid')

theorem Known.call {c : TimerQueue.Call D} (hc : CallCase q c q')
    (hcancels : ∀ id, c.cancels = some id → id ∈ ids) : Known q' functors ids := by
  have hevent {id : ActiveTimer} {e : TimerEvent} (hid : .cancelled id ∈ q.trace ++ [e]) :
      .cancelled id ∈ q.trace ∨ e = .cancelled id := by
    rw [mem_append, mem_singleton, eq_comm] at hid
    exact hid
  cases hc with
  | newTimer w i hfree hlt =>
    exact h.of_trace (Int.le_add_one le_rfl) (fun id hid ↦ Or.inl hid) fun id hid ↦ Or.inl hid
  | addTimer now ha ht =>
    refine h.of_trace ?_ (fun id hid ↦ ?_) fun id hid ↦ ?_
    · rw [armIf_numCreated]
      exact le_rfl
    · rw [armIf_trace] at hid
      exact (hevent hid).imp_right fun he ↦ by cases he
    · rw [armIf_cancelingTimers] at hid
      exact Or.inl hid
  | removeTimer ht hact =>
    refine h.of_trace le_rfl (fun id hid ↦ ?_) fun id hid ↦ Or.inl hid
    refine (hevent hid).imp_right fun he ↦ ?_
    cases he
    exact hcancels _ rfl
  | @noteCancel id₀ hid₀ =>
    refine h.of_trace le_rfl (fun id hid ↦ ?_) fun id hid ↦ ?_
    · refine (hevent hid).imp_right fun he ↦ ?_
      cases he
      exact hcancels _ rfl
    · rw [noteCancel] at hid
      split_ifs at hid
      · rcases OrderedSet.mem_insert.mp hid with rfl | hid
        · exact Or.inr (hcancels _ rfl)
        · exact Or.inl hid
      · exact Or.inl hid

end Known

/-! ## The invariant -/

section Queue

variable {q q' : TimerQueue D} {reading : Option Reading}

theorem QueueSound.call (h : QueueSound q reading) {c : TimerQueue.Call D} (hc : CallCase q c q') :
    QueueSound q' reading := by
  obtain ⟨es, hes, -⟩ := hc.evolves h.inv
  exact ⟨hc.inv h.inv, hc.fresh h.inv h.fresh, hes.calling.trans h.calling, h.remaining⟩

omit [Seconds D] in
theorem QueueSound.begin {now readAt : Timestamp} {active : OrderedSet ActiveTimer}
    (h : QueueSound q none)
    (hinv : (q.opened now readAt active).Inv (addresses (q.expired now))) :
    QueueSound (q.opened now readAt active) (some ⟨now, q.expired now, q.expired now⟩) := by
  refine ⟨hinv, h.fresh.of_heap rfl rfl rfl fun a t ht ↦ ⟨t, ht, rfl⟩, rfl, ?_⟩
  rintro r hr
  cases hr
  exact fun e he ↦ he

omit [Seconds D] in
theorem QueueSound.run {now : Timestamp} {expired remaining : List Entry} {e : Entry}
    {id : ActiveTimer} (h : QueueSound q (some ⟨now, expired, e :: remaining⟩)) :
    QueueSound (q.emit (.ran id)) (some ⟨now, expired, remaining⟩) := by
  refine ⟨h.inv, h.fresh.emit ?_, h.calling, ?_⟩
  · rintro _ _ ⟨⟩
  rintro r hr
  cases hr
  exact fun e' he' ↦ h.remaining _ rfl e' (mem_cons_of_mem _ he')

theorem QueueSound.finish {now armAt x : Timestamp} {expired : List Entry} {q₃ : TimerQueue D}
    {b : Bool} (h : QueueSound q (some ⟨now, expired, []⟩))
    (hresets : Resets now (addresses expired) { q with callingExpiredTimers := false } q₃)
    (hinv : q₃.Inv []) : QueueSound (armIf b q₃ x armAt) none := by
  have hclosed : Fresh { q with callingExpiredTimers := false } :=
    h.fresh.of_heap rfl rfl rfl fun a t ht ↦ ⟨t, ht, rfl⟩
  refine ⟨?_, (hresets.fresh hclosed).armIf, ?_, fun r hr ↦ by cases hr⟩
  · rw [TimerQueue.Inv, armIf_heap, armIf_timers, armIf_activeTimers, armIf_handedOver]
    exact hinv
  · rw [armIf_callingExpiredTimers, hresets.frame]
    rfl

end Queue

omit [Seconds D] [DecidableEq T] in
theorem sound_new : Sound (new : TimerThreads D T) where
  queue := ⟨new_inv, fresh_new, rfl, fun _ h ↦ by cases h⟩
  handed := by
    refine ⟨fun _ h ↦ (not_mem_nil h).elim, .nil, ?_, ?_⟩
    · rintro _ _ ⟨⟩
    · rintro _ _ _ _ ⟨⟩
  known := by
    refine ⟨fun id hid ↦ ?_, fun _ h ↦ (not_mem_nil h).elim,
      fun _ h ↦ (not_mem_nil h).elim, fun _ h ↦ absurd h (OrderedSet.notMem_empty _)⟩
    rw [mem_singleton.mp hid]
    exact le_rfl

omit [DecidableEq T] in
/-- A call from the queue or in the loop thread does not touch the timers that wait elsewhere. -/
theorem Handed.call {q q' : TimerQueue D} {adding : T → Option Adding} {f : TimerFunctor}
    {functors : List TimerFunctor} {now : Timestamp}
    (h : Handed (f :: functors) adding q.handedOver)
    (hc : CallCase q (f.call now) q') : Handed functors adding q'.handedOver := by
  cases f with
  | addTimerInLoop a =>
    cases hc
    rw [armIf_handedOver]
    exact h.pop_add
  | cancelInLoop id =>
    cases hc
    · exact h.pop_cancel
    · exact h.pop_cancel

theorem Sound.step {a : Action D T} (h : Sound s) (hs : s.step a = .ok s') : Sound s' := by
  have hfree {a : ℕ} (ha : s.Free a) : a ∉ s.queue.handedOver := by
    intro hmem
    obtain ⟨t, ht, -⟩ := h.queue.inv.idle_live a (mem_append_left _ hmem)
    rw [ha.1] at ht
    cases ht
  obtain ⟨hqueue, hhanded, hknown⟩ := h
  cases step_cases ⟨hqueue, hhanded, hknown⟩ hs with
  | @addTimer a w now i q' ha hcall =>
    have hnew : CallCase s.queue (.newTimer a w i) (s.queue.newTimer a w i) :=
      .newTimer w i ha.1 ha.2
    refine ⟨(hqueue.call hnew).call hcall, ?_, ?_⟩
    · -- the new timer leaves the list again
      cases hcall
      refine hhanded.mono fun b hb ↦ ?_
      rw [armIf_handedOver]
      have hne : b ≠ a := fun heq ↦ hfree ha (heq ▸ hb)
      exact (mem_erase_of_ne hne).mpr (mem_append_left _ hb)
    · have hknown' := (hknown.call hnew fun _ h ↦ by cases h).call hcall fun _ h ↦ by cases h
      refine hknown'.give ?_
      cases hcall
      rw [armIf_numCreated]
      exact le_rfl
  | cancel hid hcall =>
    refine ⟨hqueue.call hcall, ?_, hknown.call hcall fun id h ↦ ?_⟩
    · cases hcall
      · exact hhanded
      · exact hhanded
    · cases h
      exact hid
  | @functor f functors now q' hreading hfunctors hcall =>
    rw [hfunctors] at hhanded hknown
    refine ⟨hqueue.call hcall, hhanded.call hcall, ?_⟩
    have hpop : Known s.queue functors s.ids := hknown.queue fun id hid ↦
      Or.inl (mem_cons_of_mem _ hid)
    refine hpop.call hcall fun id h ↦ hknown.queued id ?_
    cases f with
    | addTimerInLoop a => cases h
    | cancelInLoop id =>
      cases h
      exact mem_cons_self
  | beginRead hreading hinv =>
    rw [hreading] at hqueue
    refine ⟨hqueue.begin hinv, hhanded, ?_⟩
    refine hknown.of_trace le_rfl (fun _ hid ↦ Or.inl hid) fun id hid ↦ ?_
    exact absurd hid (OrderedSet.notMem_empty _)
  | run hreading hu =>
    rw [hreading] at hqueue
    refine ⟨hqueue.run, hhanded, hknown.of_trace le_rfl (fun id hid ↦ ?_) fun _ hid ↦ Or.inl hid⟩
    refine (mem_append.mp hid).imp_right fun hid ↦ ?_
    cases mem_singleton.mp hid
  | endRead hreading hresets hinv =>
    rw [hreading] at hqueue
    refine ⟨hqueue.finish hresets hinv, ?_, hknown.of_trace ?_ (fun id hid ↦ ?_) fun id hid ↦ ?_⟩
    · rw [armIf_handedOver, hresets.frame]
      exact hhanded
    · rw [armIf_numCreated, hresets.frame]
    · rw [armIf_trace, hresets.frame] at hid
      exact Or.inl hid
    · rw [armIf_cancelingTimers, hresets.frame] at hid
      exact Or.inl hid
  | @create t a w i ht ha =>
    have hnew := CallCase.newTimer (q := s.queue) w i ha.1 ha.2
    exact ⟨hqueue.call hnew, hhanded.create (hfree ha), hknown.call hnew fun _ h ↦ by cases h⟩
  | handOver ht =>
    refine ⟨hqueue, hhanded.handOver ht, hknown.queue fun id hid ↦ ?_⟩
    refine Or.inl ((mem_append.mp hid).resolve_right fun hid ↦ ?_)
    cases mem_singleton.mp hid
  | readSequence ht hu =>
    exact ⟨hqueue, hhanded.read, hknown.give (hqueue.fresh.live _ _ hu)⟩
  | cancelFrom hid =>
    refine ⟨hqueue, hhanded.push_cancel, hknown.queue fun id' hid' ↦ ?_⟩
    refine (mem_append.mp hid').imp_right fun hid' ↦ ?_
    cases mem_singleton.mp hid'
    exact hid

end TimerThreads

end Fishnet
