import Fishnet.Timer.TimerThreads

/-!
# Races of the timer queue

Two things can go wrong between `addTimer` in another thread and the loop thread.

A `cancel` in the loop thread acts at once, while the `addTimerInLoop` of the timer it cancels may
still be queued. The cancel then finds nothing, and the timer enters the queue afterwards, to run as
if it had not been cancelled. A cancel in another thread is queued behind the addition.

And `addTimer` reads the sequence number of its timer after it has handed the timer over. By then
the loop may have run a one-shot timer and deleted it.

Both are the only ways (`cancel_not_lost_iff`, `readSequence_valid_iff`).

## Invariants

* `Dropped`: a timer that was added and cancelled is in neither set, and in a batch its cancel is
  noted.
* `Gone`: a timer is out of the queue and of the batch for good.
* `Owned`: the timer of an `addTimer` under way lives, and nobody else knows its `TimerId`.
-/

namespace Fishnet

open TimerEvent TimerQueue Function List

namespace TimerThreads

variable {D T : Type} {q q' q₃ : TimerQueue D} {reading : Option Reading} {es : List TimerEvent}
  {id : ActiveTimer} {expired remaining : List Entry} {e : Entry} {u : Timer D}
  {now readAt armAt x : Timestamp} {active : OrderedSet ActiveTimer} {b : Bool}

theorem scheduled_armIf {w : Timestamp} : (armIf b q x armAt).Scheduled id w ↔ q.Scheduled id w :=
  scheduled_congr armIf_timers fun _ ↦ congrFun armIf_heap _

theorem scheduled_of_expired (hinv : q.Inv []) (ha : (ofLex id).1 ∈ addresses (q.expired now))
    (hu : q.heap (ofLex id).1 = some u) (hseq : u.sequence = (ofLex id).2) :
    ∃ w, q.Scheduled id w := by
  obtain ⟨w, hs, -⟩ := (hinv.mem_addresses_expired hu).mp ha
  rw [hseq] at hs
  exact ⟨w, hs⟩

/-! ## Timers that were added and cancelled -/

theorem trace_finish [Seconds D]
    (hresets : Resets now (addresses expired) { q with callingExpiredTimers := false } q₃) :
    (armIf b q₃ x armAt).trace = q.trace := by
  rw [armIf_trace, hresets.frame]

/-- After the batch, what is scheduled was so before, or is put back. -/
theorem scheduled_finish [Seconds D] (hinv : q.Inv (addresses expired))
    (hresets : Resets now (addresses expired) { q with callingExpiredTimers := false } q₃)
    {w : Timestamp} (hs : (armIf b q₃ x armAt).Scheduled id w) :
    q.Scheduled id w ∨ (ofLex id).1 ∈ addresses expired ∧ ∃ u, q.heap (ofLex id).1 = some u ∧
      u.sequence = (ofLex id).2 ∧ id ∉ q.cancelingTimers := by
  have hclosed : ({ q with callingExpiredTimers := false } : TimerQueue D).Inv
    (addresses expired) := hinv
  rw [scheduled_armIf, hresets.scheduled hclosed] at hs
  rcases hs with hs | ⟨ha, u, hu, hseq, -, hnot, -⟩
  · exact Or.inl hs
  · exact Or.inr ⟨ha, u, hu, hseq, hnot⟩

/-- Between actions, a timer that was added and cancelled is in neither set. If it is in the batch,
its cancel is noted. -/
structure Dropped (q : TimerQueue D) (reading : Option Reading) : Prop where
  unscheduled : ∀ id ∈ addeds q.trace, .cancelled id ∈ q.trace → ∀ w, ¬q.Scheduled id w
  noted : ∀ id ∈ addeds q.trace, .cancelled id ∈ q.trace → (ofLex id).1 ∈ out reading →
    ∀ u, q.heap (ofLex id).1 = some u → u.sequence = (ofLex id).2 → id ∈ q.cancelingTimers

theorem dropped_new : Dropped (new : TimerThreads D T).queue none where
  unscheduled _ h := (not_mem_nil h).elim
  noted _ h := (not_mem_nil h).elim

theorem Dropped.evolves (h : Dropped q reading) (hcalling : q.callingExpiredTimers = reading.isSome)
    (hes : Evolves (out reading) q q' es)
    (hadds : ∀ id ∈ addeds es, .cancelled id ∉ q.trace ++ es) : Dropped q' reading := by
  -- a timer that was added and cancelled was added before
  have hold {id : ActiveTimer} (hadded : id ∈ addeds q'.trace)
      (hcancelled : .cancelled id ∈ q'.trace) :
      id ∈ addeds q.trace := by
    rw [hes.trace] at hcancelled
    rw [hes.trace, addeds_append, mem_append] at hadded
    exact hadded.resolve_right fun hid ↦ hadds id hid hcancelled
  refine ⟨fun id hadded hcancelled w hs ↦ ?_, fun id hadded hcancelled ha u hu hseq ↦ ?_⟩
  · rcases (hes.scheduled id w).mp hs with ⟨hs, hno⟩ | hadd
    · rw [hes.trace, mem_append, or_iff_left hno] at hcancelled
      refine h.unscheduled id ?_ hcancelled w hs
      exact hold hadded (by rw [hes.trace]; exact mem_append_left _ hcancelled)
    · rw [hes.trace] at hcancelled
      exact hadds id hadd.mem_addeds hcancelled
  · have hsome : q.callingExpiredTimers = true := by
      rw [hcalling]
      cases reading with
      | none => cases ha
      | some r => rfl
    rw [hes.heap _ ha] at hu
    have hiff := hes.canceling hsome _ ha u hu
    rw [hseq] at hiff
    refine hiff.mpr ?_
    have hcancelled' := hcancelled
    rw [hes.trace, mem_append] at hcancelled'
    refine hcancelled'.imp_left fun hcancelled' ↦ ?_
    exact h.noted id (hold hadded hcancelled) hcancelled' ha u hu hseq

theorem Dropped.call [Seconds D] (h : Dropped q reading) (hqueue : QueueSound q reading)
    {c : TimerQueue.Call D}
    (hc : CallCase q c q') (hadds : ∀ a now u, c = .addTimerInLoop a now → q.heap a = some u →
      .cancelled (activeTimer a u.sequence) ∉ q.trace) : Dropped q' reading := by
  cases hc with
  | newTimer w i hfree hlt =>
    exact h.evolves hqueue.calling (evolves_newTimer hqueue.inv hfree w i) fun id hid ↦
      (not_mem_nil hid).elim
  | addTimer now ha ht =>
    refine h.evolves hqueue.calling (evolves_addTimer ht) fun id hid ↦ ?_
    rw [mem_singleton.mp hid, mem_append, not_or]
    exact ⟨hadds _ now _ rfl ht, by simp⟩
  | removeTimer ht hact =>
    exact h.evolves hqueue.calling (evolves_removeTimer hqueue.inv ht hact) fun id hid ↦
      (not_mem_nil hid).elim
  | noteCancel hid =>
    exact h.evolves hqueue.calling (evolves_noteCancel hqueue.inv hid) fun id hid ↦
      (not_mem_nil hid).elim

theorem Dropped.begin (h : Dropped q none) (hinv : q.Inv []) :
    Dropped (q.opened now readAt active) (some ⟨now, q.expired now, remaining⟩) := by
  refine ⟨fun id hadded hcancelled w hs ↦ ?_, fun id hadded hcancelled ha u hu hseq ↦ ?_⟩
  · exact h.unscheduled id hadded hcancelled w (hinv.scheduled_opened.mp hs).1
  · obtain ⟨w, hs⟩ := scheduled_of_expired hinv ha hu hseq
    exact absurd hs (h.unscheduled id hadded hcancelled w)

theorem Dropped.run (h : Dropped q (some ⟨now, expired, e :: remaining⟩)) :
    Dropped (q.emit (.ran id)) (some ⟨now, expired, remaining⟩) := by
  have htrace {id' : ActiveTimer} : (.cancelled id' ∈ (q.emit (.ran id)).trace) ↔
      .cancelled id' ∈ q.trace := by
    simp [emit]
  have hadded : addeds (q.emit (.ran id)).trace = addeds q.trace := by
    rw [emit, addeds_append]
    exact append_nil _
  refine ⟨fun id' ha hc ↦ ?_, fun id' ha hc ↦ ?_⟩
  · rw [hadded] at ha
    exact h.unscheduled id' ha (htrace.mp hc)
  · rw [hadded] at ha
    exact h.noted id' ha (htrace.mp hc)

theorem Dropped.finish [Seconds D] (h : Dropped q (some ⟨now, expired, []⟩))
    (hinv : q.Inv (addresses expired))
    (hresets : Resets now (addresses expired) { q with callingExpiredTimers := false } q₃) :
    Dropped (armIf b q₃ x armAt) none := by
  refine ⟨fun id hadded hcancelled w hs ↦ ?_,
    fun id hadded hcancelled ha ↦ (not_mem_nil ha).elim⟩
  rw [trace_finish hresets] at hadded hcancelled
  rcases scheduled_finish hinv hresets hs with hs | ⟨ha, u, hu, hseq, hnot⟩
  · exact h.unscheduled id hadded hcancelled w hs
  · exact hnot (h.noted id hadded hcancelled ha u hu hseq)

/-! ## Timers that are gone -/

/-- The timer has been added, and is neither in a set nor in the batch. -/
structure Gone (id : ActiveTimer) (q : TimerQueue D) (reading : Option Reading) : Prop where
  added : id ∈ addeds q.trace
  unscheduled : ∀ w, ¬q.Scheduled id w
  not_out : (ofLex id).1 ∈ out reading → ∀ u, q.heap (ofLex id).1 = some u →
    u.sequence ≠ (ofLex id).2

/-- The events between two states, none of which runs the timer. -/
def Silent (id : ActiveTimer) (q q' : TimerQueue D) : Prop :=
  ∃ es, q'.trace = q.trace ++ es ∧ .ran id ∉ es

theorem silent_of_eq (h : q'.trace = q.trace) : Silent id q q' :=
  ⟨[], by rw [h, append_nil], not_mem_nil⟩

theorem Silent.trans {q₁ q₂ q₃ : TimerQueue D} (h : Silent id q₁ q₂) (h' : Silent id q₂ q₃) :
    Silent id q₁ q₃ := by
  obtain ⟨es, hes, hno⟩ := h
  obtain ⟨es', hes', hno'⟩ := h'
  refine ⟨es ++ es', by rw [hes', hes, append_assoc], ?_⟩
  rw [mem_append, not_or]
  exact ⟨hno, hno'⟩

theorem Gone.call [Seconds D] (h : Gone id q reading) (hqueue : QueueSound q reading)
    {c : TimerQueue.Call D} (hc : CallCase q c q') : Gone id q' reading ∧ Silent id q q' := by
  obtain ⟨es, hes, hran, -⟩ := hc.evolves hqueue.inv
  have hnodup := (hqueue.call hc).fresh.nodup
  rw [hes.trace] at hnodup
  refine ⟨⟨?_, fun w hs ↦ ?_, fun ha u hu ↦ ?_⟩, es, hes.trace, ?_⟩
  · rw [hes.trace, addeds_append]
    exact mem_append_left _ h.added
  · rcases (hes.scheduled id w).mp hs with ⟨hs, -⟩ | hadds
    · exact h.unscheduled w hs
    · exact not_adds_of_nodup hnodup h.added hadds
  · rw [hes.heap _ ha] at hu
    exact h.not_out ha u hu
  · rw [← mem_rans, hran]
    exact not_mem_nil

theorem Gone.begin (h : Gone id q none) (hinv : q.Inv []) :
    Gone id (q.opened now readAt active) (some ⟨now, q.expired now, remaining⟩) := by
  refine ⟨h.added, fun w hs ↦ h.unscheduled w (hinv.scheduled_opened.mp hs).1,
    fun ha u hu hseq ↦ ?_⟩
  obtain ⟨w, hs⟩ := scheduled_of_expired hinv ha hu hseq
  exact h.unscheduled w hs

theorem Gone.run (h : Gone id q (some ⟨now, expired, e :: remaining⟩)) (he : e ∈ expired)
    (hu : q.heap (ofLex e).2 = some u) :
    Gone id (q.emit (.ran (activeTimer (ofLex e).2 u.sequence))) (some ⟨now, expired, remaining⟩) ∧
      Silent id q (q.emit (.ran (activeTimer (ofLex e).2 u.sequence))) := by
  refine ⟨⟨?_, h.unscheduled, h.not_out⟩, _, rfl, fun hran ↦ ?_⟩
  · rw [emit, addeds_append]
    exact mem_append_left _ h.added
  · rw [mem_singleton, TimerEvent.ran.injEq] at hran
    rw [hran] at h
    exact h.not_out (mem_map.mpr ⟨e, he, rfl⟩) u hu rfl

theorem Gone.finish [Seconds D] (h : Gone id q (some ⟨now, expired, []⟩))
    (hinv : q.Inv (addresses expired))
    (hresets : Resets now (addresses expired) { q with callingExpiredTimers := false } q₃) :
    Gone id (armIf b q₃ x armAt) none ∧ Silent id q (armIf b q₃ x armAt) := by
  have htrace : (armIf b q₃ x armAt).trace = q.trace := trace_finish hresets
  refine ⟨⟨?_, fun w hs ↦ ?_, fun ha ↦ (not_mem_nil ha).elim⟩, silent_of_eq htrace⟩
  · rw [htrace]
    exact h.added
  · rcases scheduled_finish hinv hresets hs with hs | ⟨ha, u, hu, hseq, -⟩
    · exact h.unscheduled w hs
    · exact h.not_out ha u hu hseq

section Runs

variable [Seconds D] [DecidableEq T] {s s' : TimerThreads D T}

theorem Gone.step (h : Gone id s.queue s.reading) (hsound : Sound s) {a : Action D T}
    (hs : s.step a = .ok s') : Gone id s'.queue s'.reading ∧ Silent id s.queue s'.queue := by
  have hqueue := hsound.queue
  cases step_cases hsound hs with
  | @addTimer a w now i q' ha hcall =>
    have hnew : CallCase s.queue (.newTimer a w i) (s.queue.newTimer a w i) :=
      .newTimer w i ha.1 ha.2
    obtain ⟨hgone, hsilent⟩ := h.call hqueue hnew
    obtain ⟨hgone', hsilent'⟩ := hgone.call (hqueue.call hnew) hcall
    exact ⟨hgone', hsilent.trans hsilent'⟩
  | cancel hid hcall => exact h.call hqueue hcall
  | functor hreading hfunctors hcall => exact h.call hqueue hcall
  | beginRead hreading hinv =>
    rw [hreading] at h hqueue
    exact ⟨h.begin hqueue.inv, silent_of_eq rfl⟩
  | run hreading hu =>
    rw [hreading] at h hqueue
    exact h.run (hqueue.remaining _ rfl _ mem_cons_self) hu
  | endRead hreading hresets hinv =>
    rw [hreading] at h hqueue
    exact h.finish hqueue.inv hresets
  | @create t a w i ht ha => exact h.call hqueue (.newTimer w i ha.1 ha.2)
  | handOver ht => exact ⟨h, silent_of_eq rfl⟩
  | readSequence ht hu => exact ⟨h, silent_of_eq rfl⟩
  | cancelFrom hid => exact ⟨h, silent_of_eq rfl⟩

/-- A timer that is gone does not run again. -/
theorem Gone.silent (h : Gone id s.queue s.reading) (hsound : Sound s) {as : List (Action D T)}
    (hrun : runAll TimerThreads.step s as = .ok s') : Silent id s.queue s'.queue := by
  induction as generalizing s with
  | nil =>
    cases hrun
    exact silent_of_eq rfl
  | cons a as ih =>
    obtain ⟨s₁, hs, hrest⟩ := runAll_cons_eq_ok.mp hrun
    obtain ⟨hgone, hsilent⟩ := h.step hsound hs
    exact hsilent.trans (ih hgone (hsound.step hs) hrest)

/-! ## Cancels across threads -/

/-- `addTimerInLoop` does not run for a timer that has been cancelled. -/
def AddsFirst (s : TimerThreads D T) : Action D T → Prop
  | .functor _ => s.reading.isNone → ∀ a ∈ s.functors.head?.bind TimerFunctor.adds,
      ∀ u ∈ s.queue.heap a, .cancelled (activeTimer a u.sequence) ∉ s.queue.trace
  | _ => True

instance (s : TimerThreads D T) : ∀ a, Decidable (s.AddsFirst a)
  | .functor _ =>
    inferInstanceAs (Decidable (s.reading.isNone → ∀ a ∈ s.functors.head?.bind TimerFunctor.adds,
      ∀ u ∈ s.queue.heap a, .cancelled (activeTimer a u.sequence) ∉ s.queue.trace))
  | .addTimer .. | .cancel .. | .beginRead .. | .run | .endRead .. | .create .. | .handOver ..
  | .readSequence .. | .cancelFrom .. => inferInstanceAs (Decidable True)

theorem Dropped.step (h : Dropped s.queue s.reading) (hsound : Sound s) {a : Action D T}
    (hfirst : AddsFirst s a) (hs : s.step a = .ok s') : Dropped s'.queue s'.reading := by
  have hqueue := hsound.queue
  cases step_cases hsound hs with
  | @addTimer a w now i q' ha hcall =>
    have hnew : CallCase s.queue (.newTimer a w i) (s.queue.newTimer a w i) :=
      .newTimer w i ha.1 ha.2
    have hdropped := h.call hqueue hnew fun _ _ _ heq ↦ by cases heq
    refine hdropped.call (hqueue.call hnew) hcall fun a' now' u heq hu hcancelled ↦ ?_
    -- the number of the new timer is not that of any timer known so far
    cases heq
    cases (update_self ..).symm.trans hu
    have hle := hsound.known.le _ (hsound.known.cancelled _ hcancelled)
    exact absurd hle (Int.not_le.mpr (Int.lt_succ s.queue.numCreated))
  | cancel hid hcall => exact h.call hqueue hcall fun _ _ _ heq ↦ by cases heq
  | @functor f functors now q' hreading hfunctors hcall =>
    refine h.call hqueue hcall fun a now' u heq hu ↦ ?_
    cases f with
    | addTimerInLoop a' =>
      cases heq
      exact hfirst (by rw [hreading]; rfl) a (by rw [hfunctors]; rfl) u hu
    | cancelInLoop id => cases heq
  | beginRead hreading hinv =>
    rw [hreading] at h hqueue
    exact h.begin hqueue.inv
  | run hreading hu =>
    rw [hreading] at h
    exact h.run
  | endRead hreading hresets hinv =>
    rw [hreading] at h hqueue
    exact h.finish hqueue.inv hresets
  | @create t a w i ht ha =>
    exact h.call hqueue (.newTimer w i ha.1 ha.2) fun _ _ _ heq ↦ by cases heq
  | handOver ht => exact h
  | readSequence ht hu => exact h
  | cancelFrom hid => exact h

theorem functor_of {f : TimerFunctor} {functors : List TimerFunctor} {q' : TimerQueue D}
    (hreading : s.reading = none) (hfunctors : s.functors = f :: functors)
    (hcall : s.queue.call (f.call now) = .ok q') :
    s.step (.functor now) = .ok { s with queue := q', functors := functors } := by
  change s.functor now = _
  unfold TimerThreads.functor
  rw [hfunctors]
  refine attempt_eq_ok.mpr ⟨by rw [hreading]; rfl, ?_⟩
  rw [hcall]
  rfl

/-- Outside a batch, a timer that was added and cancelled is in neither set. -/
def Cancelled (s : TimerThreads D T) : Prop :=
  s.reading = none → ∀ id ∈ addeds s.queue.trace, .cancelled id ∈ s.queue.trace →
    id ∉ s.queue.activeTimers ∧ ∀ w, ¬s.queue.Scheduled id w

omit [Seconds D] [DecidableEq T] in
theorem Dropped.cancelled (h : Dropped s.queue s.reading) (hsound : Sound s) : Cancelled s := by
  intro _ id hadded hcancelled
  refine ⟨fun hactive ↦ ?_, h.unscheduled id hadded hcancelled⟩
  obtain ⟨w, hs⟩ := hsound.queue.inv.mem_active_iff.mp hactive
  exact h.unscheduled id hadded hcancelled w hs

/-- An `addTimerInLoop` that comes after the cancel puts the timer into the sets. -/
theorem Sound.loses_cancel (h : Sound s) {a : Action D T} (hfirst : ¬AddsFirst s a) :
    ∃ s', s.step a = .ok s' ∧ ¬Cancelled s' := by
  cases a with
  | functor now =>
    simp only [AddsFirst, Classical.not_imp, not_forall, not_not] at hfirst
    obtain ⟨hreading, a, hhead, u, hu, hcancelled⟩ := hfirst
    rw [Option.isNone_iff_eq_none] at hreading
    obtain ⟨f, functors, hfunctors⟩ : ∃ f functors, s.functors = f :: functors := by
      cases hlist : s.functors with
      | nil =>
        rw [hlist] at hhead
        cases hhead
      | cons f functors => exact ⟨f, functors, rfl⟩
    rw [hfunctors] at hhead
    cases f with
    | cancelInLoop id => cases hhead
    | addTimerInLoop a' =>
      cases hhead
      have hmem : a ∈ s.queue.handedOver := h.handed.adds a (hfunctors ▸ mem_cons_self)
      refine ⟨_, functor_of hreading hfunctors (addTimerInLoop_eq h.queue.inv hmem hu),
        fun hno ↦ ?_⟩
      have hes : Evolves (out s.reading) s.queue
          (armIf (s.queue.earliestChanged u.expiration) (s.queue.addTimer a u) u.expiration now)
          [.added (activeTimer a u.sequence) u.expiration] := evolves_addTimer hu
      refine (hno hreading (activeTimer a u.sequence) ?_ ?_).2 u.expiration ?_
      · rw [hes.trace, addeds_append]
        exact mem_append_right _ mem_cons_self
      · rw [hes.trace]
        exact mem_append_left _ hcancelled
      · exact (hes.scheduled _ _).mpr (Or.inr (adds_singleton.mpr rfl))
  | _ => exact absurd trivial hfirst

/-- **Cancels across threads.** Along a run, whenever a timer has been added and cancelled and no
batch is under way, the timer is in neither set and does not run again, exactly if no
`addTimerInLoop` comes after the `cancelInLoop` of its timer. -/
theorem cancel_not_lost_iff (as : List (Action D T)) :
    (∀ before after, before ++ after <+: as → ∀ s s' : TimerThreads D T,
      runAll step new before = .ok s → runAll step s after = .ok s' → s.reading = none →
      ∀ id ∈ addeds s.queue.trace, .cancelled id ∈ s.queue.trace →
        (id ∉ s.queue.activeTimers ∧ ∀ w, ¬s.queue.Scheduled id w) ∧
        ∃ es, s'.queue.trace = s.queue.trace ++ es ∧ .ran id ∉ es) ↔
    Along step AddsFirst (new : TimerThreads D T) as := by
  have hiff : (∀ pre, pre <+: as → ∀ s, runAll step (new : TimerThreads D T) pre = .ok s →
    Cancelled s) ↔
      Along step AddsFirst (new : TimerThreads D T) as :=
    along_iff_of_reached (I := fun s ↦ Sound s ∧ Dropped s.queue s.reading) (A := fun _ _ ↦ True)
      (fun s hs ↦ hs.2.cancelled hs.1)
      (fun s a s' hs _ hfirst hstep ↦ ⟨hs.1.step hstep, hs.2.step hs.1 hfirst hstep⟩)
      (fun s a hs _ hfirst ↦ hs.1.loses_cancel hfirst) ⟨sound_new, dropped_new⟩
      (along_of_forall fun _ _ _ ↦ trivial)
  rw [← hiff]
  constructor
  · intro h pre hpre s hrun hreading id hadded hcancelled
    exact (h pre [] (by rwa [append_nil]) s s hrun rfl hreading id hadded hcancelled).1
  · intro h before after hpre s s' hrun hrest hreading id hadded hcancelled
    have hsound : Sound s := runAll_invariant (fun _ _ _ hs hstep ↦ hs.step hstep) sound_new hrun
    have hout := h before ((prefix_append before after).trans hpre) s hrun hreading id hadded
      hcancelled
    refine ⟨hout, Gone.silent ⟨hadded, hout.2, fun ha ↦ ?_⟩ hsound hrest⟩
    rw [hreading] at ha
    exact (not_mem_nil ha).elim

/-- Another thread adds a timer and gets its `TimerId`. -/
def addFromThread : List (Action ℚ Unit) := [.create () 8 1000 0, .handOver (), .readSequence ()]

/-- The loop thread runs the queued addition before it cancels the timer. -/
theorem cancel_not_lost_addFirst :
    ∃ s : TimerThreads ℚ Unit,
      runAll step new (addFromThread ++ [.functor 10, .cancel (activeTimer 8 1)]) = .ok s ∧
        activeTimer 8 1 ∉ s.queue.activeTimers := by
  refine exists_ok_of_map (fun s ↦ (s.reading.isNone, s.queue.trace))
    (true, [.added (activeTimer 8 1) 1000, .cancelled (activeTimer 8 1)]) (by decide +kernel)
    fun s hrun hobserved ↦ ?_
  obtain ⟨hreading, htrace⟩ := Prod.mk.inj hobserved
  have hadded : activeTimer 8 1 ∈ addeds s.queue.trace := by
    rw [htrace]
    decide
  have hcancelled : .cancelled (activeTimer 8 1) ∈ s.queue.trace := by
    rw [htrace]
    decide
  have halong := (cancel_not_lost_iff
    (addFromThread ++ [.functor 10, .cancel (activeTimer 8 1)])).mpr (by decide +kernel)
  exact (halong _ [] (by rw [append_nil]) s s hrun rfl
    (Option.isNone_iff_eq_none.mp hreading) _ hadded hcancelled).1.1

/-- The loop thread cancels the timer while its addition is queued. After that, the timer is in
`activeTimers_`, and it runs when it is due. -/
theorem cancel_lost_while_queued :
    ∃ s s' : TimerThreads ℚ Unit,
      runAll step new (addFromThread ++ [.cancel (activeTimer 8 1), .functor 10]) = .ok s ∧
      s.reading = none ∧ .cancelled (activeTimer 8 1) ∈ s.queue.trace ∧
      activeTimer 8 1 ∈ addeds s.queue.trace ∧ activeTimer 8 1 ∈ s.queue.activeTimers ∧
      runAll step s [.beginRead 1000 1000, .run] = .ok s' ∧
      s'.queue.trace = s.queue.trace ++ [.ran (activeTimer 8 1)] := by
  have hqueued : (runAll step (new : TimerThreads ℚ Unit)
      (addFromThread ++ [.cancel (activeTimer 8 1), .functor 10])).map
      (fun s ↦ (s.reading.isNone, s.queue.trace, decide (activeTimer 8 1 ∈ s.queue.activeTimers))) =
      .ok (true, [.cancelled (activeTimer 8 1), .added (activeTimer 8 1) 1000], true) := by
    decide +kernel
  have hlater : (runAll step (new : TimerThreads ℚ Unit)
      ((addFromThread ++ [.cancel (activeTimer 8 1), .functor 10]) ++
        [.beginRead 1000 1000, .run])).map
      (fun s ↦ s.queue.trace) =
      .ok [.cancelled (activeTimer 8 1), .added (activeTimer 8 1) 1000,
        .ran (activeTimer 8 1)] := by
    decide +kernel
  obtain ⟨s, hrun, hobs⟩ := map_eq_ok.mp hqueued
  obtain ⟨s', hrun', htrace'⟩ := map_eq_ok.mp hlater
  obtain ⟨hreading, hobs⟩ := Prod.mk.inj hobs
  obtain ⟨htrace, hactive⟩ := Prod.mk.inj hobs
  obtain ⟨t, ht, hrest⟩ := runAll_append_eq_ok.mp hrun'
  obtain rfl := Except.ok.inj (hrun.symm.trans ht)
  refine ⟨s, s', hrun, Option.isNone_iff_eq_none.mp hreading, ?_, ?_, of_decide_eq_true hactive,
    hrest, ?_⟩
  · rw [htrace]
    decide
  · rw [htrace]
    decide
  · rw [htrace', htrace]
    rfl

/-! ## The sequence number -/

/-- The timer of an `addTimer` under way lives, and its `TimerId` is not known yet. -/
structure Owned (s : TimerThreads D T) : Prop where
  live : ∀ t x, s.adding t = some x →
    ∃ u, s.queue.heap x.timer = some u ∧ u.sequence = x.sequence
  distinct : ∀ t t' x x', s.adding t = some x → s.adding t' = some x' → x.sequence = x'.sequence →
    t = t'
  unknown : ∀ t x, s.adding t = some x → activeTimer x.timer x.sequence ∉ s.ids

/-- At the end of a batch, no one-shot timer of the batch is deleted whose `addTimer` has yet to
read the sequence number. -/
def KeepsUnread (s : TimerThreads D T) : Action D T → Prop
  | .endRead _ => ∀ r ∈ s.reading, r.remaining = [] → ∀ t, ∀ x ∈ s.adding t, x.handedOver = true →
      x.timer ∈ addresses r.expired → ∀ u ∈ s.queue.heap x.timer, u.repeats = true
  | _ => True

instance [Fintype T] (s : TimerThreads D T) : ∀ a, Decidable (s.KeepsUnread a)
  | .endRead _ => inferInstanceAs (Decidable (∀ r ∈ s.reading, r.remaining = [] → ∀ t,
      ∀ x ∈ s.adding t, x.handedOver = true → x.timer ∈ addresses r.expired →
        ∀ u ∈ s.queue.heap x.timer, u.repeats = true))
  | .addTimer .. | .cancel .. | .functor .. | .beginRead .. | .run | .create .. | .handOver ..
  | .readSequence .. | .cancelFrom .. => inferInstanceAs (Decidable True)

omit [Seconds D] [DecidableEq T] in
theorem owned_new : Owned (new : TimerThreads D T) := by
  refine ⟨?_, ?_, ?_⟩
  · rintro _ _ ⟨⟩
  · rintro _ _ _ _ ⟨⟩
  · rintro _ _ ⟨⟩

section

variable (h : Owned s)
include h

omit [Seconds D] [DecidableEq T] in
theorem Owned.of_heap (hadding : s'.adding = s.adding)
    (hheap : ∀ t x u, s.adding t = some x → s.queue.heap x.timer = some u →
      u.sequence = x.sequence →
      ∃ u', s'.queue.heap x.timer = some u' ∧ u'.sequence = u.sequence)
    (hids : ∀ t x, s.adding t = some x → activeTimer x.timer x.sequence ∉ s.ids →
      activeTimer x.timer x.sequence ∉ s'.ids) : Owned s' where
  live t x ht := by
    rw [hadding] at ht
    obtain ⟨u, hu, hseq⟩ := h.live t x ht
    obtain ⟨u', hu', hseq'⟩ := hheap t x u ht hu hseq
    exact ⟨u', hu', hseq'.trans hseq⟩
  distinct t t' x x' ht ht' := by
    rw [hadding] at ht ht'
    exact h.distinct t t' x x' ht ht'
  unknown t x ht := by
    rw [hadding] at ht
    exact hids t x ht (h.unknown t x ht)

omit [DecidableEq T] in
/-- A call cancels only timers whose `TimerId` is known, so it keeps the others. -/
theorem Owned.call {c : TimerQueue.Call D} (hc : CallCase s.queue c q')
    (hcancels : ∀ id, c.cancels = some id → id ∈ s.ids) {t : T} {x : Adding}
    (ht : s.adding t = some x) (hu : s.queue.heap x.timer = some u)
    (hseq : u.sequence = x.sequence) : q'.heap x.timer = some u := by
  cases hc with
  | newTimer w i hfree hlt =>
    refine (update_of_ne ?_ ..).trans hu
    rintro heq
    rw [heq, hfree] at hu
    cases hu
  | addTimer now ha hv =>
    rw [armIf_heap]
    exact hu
  | @removeTimer a v hv hact =>
    refine (update_of_ne ?_ ..).trans hu
    rintro rfl
    cases hu.symm.trans hv
    apply h.unknown t x ht
    rw [← hseq]
    exact hcancels _ rfl
  | noteCancel hid => exact hu

omit [Seconds D] [DecidableEq T] in
/-- The number of an `addTimer` under way has been used. -/
theorem Owned.sequence_le (hsound : Sound s) {t : T} {x : Adding}
    (ht : s.adding t = some x) : x.sequence ≤ s.queue.numCreated := by
  obtain ⟨u, hu, hseq⟩ := h.live t x ht
  rw [← hseq]
  exact hsound.queue.fresh.live _ u hu

omit [DecidableEq T] in
/-- The end of a batch keeps the repeating timers that were not cancelled, and nothing of the batch
that is still unread has been cancelled. -/
theorem Owned.finish (hsound : Sound s)
    (hreading : s.reading = some ⟨now, expired, []⟩)
    (hkeeps : KeepsUnread s (.endRead armAt))
    (hresets : Resets now (addresses expired) { s.queue with callingExpiredTimers := false } q₃)
    {t : T} {x : Adding} (ht : s.adding t = some x) (hu : s.queue.heap x.timer = some u)
    (hseq : u.sequence = x.sequence) :
    ∃ u', q₃.heap x.timer = some u' ∧ u'.sequence = u.sequence := by
  by_cases hout : x.timer ∈ addresses expired
  · have hhanded : x.handedOver = true := by
      by_contra hnot
      rw [Bool.not_eq_true] at hnot
      -- a timer that waits for its hand-over is in no batch
      have hinv := hsound.queue.inv
      rw [hreading] at hinv
      exact (nodup_append.mp hinv.idle_nodup).2.2 _
        (hsound.handed.created t x ht hnot).1 _ hout rfl
    have hrepeats : u.repeats = true := hkeeps _ hreading rfl t x ht hhanded hout u hu
    have hnoted : activeTimer x.timer u.sequence ∉ s.queue.cancelingTimers := by
      intro hmem
      rw [hseq] at hmem
      exact h.unknown t x ht (hsound.known.noted _ hmem)
    obtain ⟨v, hv, hheap⟩ := hresets.heap_of_mem _ hout
    cases hu.symm.trans hv
    refine ⟨u.restart now, hheap.trans (if_pos ⟨hrepeats, hnoted⟩), restart_sequence u now⟩
  · exact ⟨u, (hresets.heap_of_notMem _ hout).trans hu, rfl⟩

theorem Owned.create (hsound : Sound s) {t : T} {a : ℕ} {w : Timestamp} {i : D}
    (ha : s.Free a) :
    Owned { s with
      queue := s.queue.newTimer a w i
      adding := update s.adding t (some ⟨a, s.queue.numCreated + 1, false⟩) } := by
  have hnew : CallCase s.queue (.newTimer a w i) (s.queue.newTimer a w i) :=
    .newTimer w i ha.1 ha.2
  have hcases {t' : T} {x : Adding}
      (hx : update s.adding t (some ⟨a, s.queue.numCreated + 1, false⟩) t' = some x) :
      (t' = t ∧ x = ⟨a, s.queue.numCreated + 1, false⟩) ∨
        (s.adding t' = some x ∧ x.sequence ≤ s.queue.numCreated) := by
    rcases eq_or_ne t' t with rfl | hne
    · rw [update_self] at hx
      exact Or.inl ⟨rfl, (Option.some_inj.mp hx).symm⟩
    · rw [update_of_ne hne] at hx
      exact Or.inr ⟨hx, h.sequence_le hsound hx⟩
  refine ⟨fun t' x hx ↦ ?_, fun t₁ t₂ x₁ x₂ hx₁ hx₂ heq ↦ ?_, fun t' x hx hmem ↦ ?_⟩
  · rcases hcases hx with ⟨-, rfl⟩ | ⟨hx, -⟩
    · exact ⟨_, update_self .., rfl⟩
    · obtain ⟨u, hu, hseq⟩ := h.live t' x hx
      exact ⟨u, h.call hnew (fun _ hid ↦ by cases hid) hx hu hseq, hseq⟩
  · -- the new number is greater than the others
    rcases hcases hx₁ with ⟨rfl, rfl⟩ | ⟨hx₁, hle₁⟩
    · rcases hcases hx₂ with ⟨rfl, -⟩ | ⟨-, hle₂⟩
      · rfl
      · dsimp only at heq
        omega
    · rcases hcases hx₂ with ⟨-, rfl⟩ | ⟨hx₂, -⟩
      · dsimp only at heq
        omega
      · exact h.distinct t₁ t₂ x₁ x₂ hx₁ hx₂ heq
  · rcases hcases hx with ⟨-, rfl⟩ | ⟨hx, -⟩
    · exact absurd (hsound.known.le _ hmem) (Int.not_le.mpr (Int.lt_succ s.queue.numCreated))
    · exact h.unknown t' x hx hmem

omit [Seconds D] in
theorem Owned.handOver {t : T} {a : ℕ} {n : ℤ}
    (ht : s.adding t = some ⟨a, n, false⟩) :
    Owned { s with
      functors := s.functors ++ [.addTimerInLoop a]
      adding := update s.adding t (some ⟨a, n, true⟩) } := by
  -- the flag changes, and neither the timer nor its number
  have hcases {t' : T} {x : Adding}
      (hx : update s.adding t (some ⟨a, n, true⟩) t' = some x) :
      ∃ y, s.adding t' = some y ∧ y.timer = x.timer ∧ y.sequence = x.sequence := by
    rcases eq_or_ne t' t with rfl | hne
    · cases (update_self ..).symm.trans hx
      exact ⟨_, ht, rfl, rfl⟩
    · exact ⟨x, (update_of_ne hne ..).symm.trans hx, rfl, rfl⟩
  refine ⟨fun t' x hx ↦ ?_, fun t₁ t₂ x₁ x₂ hx₁ hx₂ heq ↦ ?_, fun t' x hx ↦ ?_⟩
  · obtain ⟨y, hy, htimer, hseq⟩ := hcases hx
    rw [← htimer, ← hseq]
    exact h.live t' y hy
  · obtain ⟨y₁, hy₁, -, hseq₁⟩ := hcases hx₁
    obtain ⟨y₂, hy₂, -, hseq₂⟩ := hcases hx₂
    exact h.distinct t₁ t₂ y₁ y₂ hy₁ hy₂ (by rw [hseq₁, hseq₂, heq])
  · obtain ⟨y, hy, htimer, hseq⟩ := hcases hx
    rw [← htimer, ← hseq]
    exact h.unknown t' y hy

omit [Seconds D] in
/-- A thread returns from `addTimer`. The number that it gives out is its own. -/
theorem Owned.readSequence {t : T} {a : ℕ} {n : ℤ} {u : Timer D}
    (ht : s.adding t = some ⟨a, n, true⟩) (hu : s.queue.heap a = some u) :
    Owned { s with
      adding := update s.adding t none, ids := s.ids ++ [activeTimer a u.sequence] } := by
  have hcases {t' : T} {x : Adding} (hx : update s.adding t none t' = some x) :
      t' ≠ t ∧ s.adding t' = some x := by
    rcases eq_or_ne t' t with rfl | hne
    · cases (update_self ..).symm.trans hx
    · exact ⟨hne, (update_of_ne hne ..).symm.trans hx⟩
  refine ⟨fun t' x hx ↦ h.live t' x (hcases hx).2,
    fun t₁ t₂ x₁ x₂ hx₁ hx₂ ↦ h.distinct t₁ t₂ x₁ x₂ (hcases hx₁).2 (hcases hx₂).2,
    fun t' x hx hmem ↦ ?_⟩
  obtain ⟨hne, hx⟩ := hcases hx
  refine (mem_append.mp hmem).elim (h.unknown t' x hx) fun hmem ↦ ?_
  rw [mem_singleton, activeTimer_inj] at hmem
  obtain ⟨v, hv, hseq⟩ := h.live t _ ht
  cases hu.symm.trans hv
  exact hne (h.distinct t' t x _ hx ht (hmem.2.trans hseq))

theorem Owned.step (hsound : Sound s) {a : Action D T} (hkeeps : KeepsUnread s a)
    (hs : s.step a = .ok s') : Owned s' := by
  cases step_cases hsound hs with
  | @addTimer a w now i q' ha hcall =>
    have hnew : CallCase s.queue (.newTimer a w i) (s.queue.newTimer a w i) :=
      .newTimer w i ha.1 ha.2
    have hheap : q'.heap = (s.queue.newTimer a w i).heap := by
      cases hcall
      exact armIf_heap
    refine h.of_heap rfl (fun t x u ht hu hseq ↦ ⟨u, ?_, rfl⟩) fun t x ht hno hmem ↦ ?_
    · rw [hheap]
      exact h.call hnew (fun _ hid ↦ by cases hid) ht hu hseq
    · refine (mem_append.mp hmem).elim hno fun hmem ↦ ?_
      rw [mem_singleton, activeTimer_inj] at hmem
      have hle := h.sequence_le hsound ht
      omega
  | cancel hid hcall =>
    refine h.of_heap rfl (fun t x u ht hu hseq ↦ ⟨u, ?_, rfl⟩) fun _ _ _ hno ↦ hno
    refine h.call hcall (fun id' hid' ↦ ?_) ht hu hseq
    cases hid'
    exact hid
  | @functor f functors now q' hreading hfunctors hcall =>
    refine h.of_heap rfl (fun t x u ht hu hseq ↦ ⟨u, ?_, rfl⟩) fun _ _ _ hno ↦ hno
    refine h.call hcall (fun id hid ↦ hsound.known.queued id ?_) ht hu hseq
    rw [hfunctors]
    cases f with
    | addTimerInLoop a => cases hid
    | cancelInLoop id' =>
      cases hid
      exact mem_cons_self
  | beginRead hreading hinv =>
    exact h.of_heap rfl (fun _ _ u _ hu _ ↦ ⟨u, hu, rfl⟩) fun _ _ _ hno ↦ hno
  | run hreading hu => exact h.of_heap rfl (fun _ _ u _ hu _ ↦ ⟨u, hu, rfl⟩) fun _ _ _ hno ↦ hno
  | endRead hreading hresets hinv =>
    refine h.of_heap rfl (fun t x u ht hu hseq ↦ ?_) fun _ _ _ hno ↦ hno
    rw [armIf_heap]
    exact h.finish hsound hreading hkeeps hresets ht hu hseq
  | create ht ha => exact h.create hsound ha
  | handOver ht => exact h.handOver ht
  | readSequence ht hu => exact h.readSequence ht hu
  | cancelFrom hid => exact h.of_heap rfl (fun _ _ u _ hu _ ↦ ⟨u, hu, rfl⟩) fun _ _ _ hno ↦ hno

end

/-- Whenever the sequence number is read, it is that of the timer that the thread has created. -/
def ReadsOwn (s : TimerThreads D T) : Prop :=
  ∀ t x, s.adding t = some x → x.handedOver = true →
    ∃ s', s.step (.readSequence t) = .ok s' ∧ s'.ids = s.ids ++ [activeTimer x.timer x.sequence]

theorem Owned.readsOwn (h : Owned s) : ReadsOwn s := by
  rintro t ⟨a, n, handed⟩ ht rfl
  obtain ⟨u, hu, hseq⟩ := h.live t _ ht
  have hread : s.step (.readSequence t) = .ok { s with
      adding := update s.adding t none, ids := s.ids ++ [activeTimer a u.sequence] } := by
    change s.readSequence t = _
    unfold TimerThreads.readSequence
    rw [ht]
    refine attempt_eq_ok.mpr ⟨trivial, ?_⟩
    rw [deref_of hu]
    rfl
  refine ⟨_, hread, ?_⟩
  rw [hseq]

/-- The end of a batch deletes a one-shot timer, and its sequence number is not there to be read. -/
theorem Sound.deletes_unread (h : Sound s) {a : Action D T} (hkeeps : ¬KeepsUnread s a) :
    ∃ s', s.step a = .ok s' ∧ ¬ReadsOwn s' := by
  cases a with
  | endRead armAt =>
    simp only [KeepsUnread, not_forall] at hkeeps
    obtain ⟨⟨now, expired, remaining⟩, hreading, rfl, t, ⟨a, n, handed⟩, ht, rfl, hout, u, hu,
      hrepeats⟩ := hkeeps
    have hinv := h.queue.inv
    rw [show s.reading = _ from hreading] at hinv
    obtain ⟨q₃, hreset, hresets, -⟩ := reset_spec
      (q := { s.queue with callingExpiredTimers := false }) hinv now armAt
    have hend : s.step (.endRead armAt) = .ok { s with
        queue := armIf (decide (0 < q₃.earliest)) q₃ q₃.earliest armAt, reading := none } := by
      change s.endRead armAt = _
      unfold TimerThreads.endRead
      rw [show s.reading = _ from hreading]
      refine attempt_eq_ok.mpr ⟨trivial, ?_⟩
      rw [TimerQueue.endRead, hreset]
      rfl
    refine ⟨_, hend, fun hreads ↦ ?_⟩
    obtain ⟨s', hs', -⟩ := hreads t ⟨a, n, true⟩ ht rfl
    obtain ⟨v, hv, hheap⟩ := hresets.heap_of_mem a hout
    cases (show s.queue.heap a = some u from hu).symm.trans hv
    have hnone : (armIf (decide (0 < q₃.earliest)) q₃ q₃.earliest armAt).heap a = none := by
      rw [armIf_heap, hheap]
      exact if_neg fun hrep ↦ hrepeats hrep.1
    change TimerThreads.readSequence _ t = .ok s' at hs'
    unfold TimerThreads.readSequence at hs'
    rw [show s.adding t = _ from ht] at hs'
    obtain ⟨-, hs'⟩ := attempt_eq_ok.mp hs'
    obtain ⟨v, hv, -⟩ := bind_eq_ok.mp hs'
    have hv' := heap_of_deref hv
    rw [hnone] at hv'
    cases hv'
  | _ => exact absurd trivial hkeeps

/-- **The `TimerId` that `addTimer` returns.** Along a run, an `addTimer` of another thread that has
handed its timer over can read the number of that timer whenever it comes to it, exactly if no batch
ends with a one-shot timer whose number is still to be read. -/
theorem readSequence_valid_iff (as : List (Action D T)) :
    (∀ pre, pre <+: as → ∀ s, runAll step (new : TimerThreads D T) pre = .ok s →
      ∀ t x, s.adding t = some x → x.handedOver = true →
        ∃ s', s.step (.readSequence t) = .ok s' ∧
          s'.ids = s.ids ++ [activeTimer x.timer x.sequence]) ↔
    Along step KeepsUnread (new : TimerThreads D T) as :=
  along_iff_of_reached (I := fun s ↦ Sound s ∧ Owned s) (A := fun _ _ ↦ True)
    (fun _ hs ↦ hs.2.readsOwn)
    (fun _ _ _ hs _ hkeeps hstep ↦ ⟨hs.1.step hstep, hs.2.step hs.1 hkeeps hstep⟩)
    (fun _ _ hs _ hkeeps ↦ hs.1.deletes_unread hkeeps) ⟨sound_new, owned_new⟩
    (along_of_forall fun _ _ _ ↦ trivial)

/-- A timer runs after its number has been read. -/
theorem readSequence_valid_addFromThread :
    ∃ s s' : TimerThreads ℚ Unit, runAll step new [.create () 8 1000 0, .handOver ()] = .ok s ∧
      s.step (.readSequence ()) = .ok s' ∧ s'.ids = s.ids ++ [activeTimer 8 1] := by
  have hvalid := (readSequence_valid_iff
    (addFromThread ++ [.functor 10, .beginRead 1000 1000, .run, .endRead 1001])).mpr
      (by decide +kernel)
  obtain ⟨s', hs'⟩ := hvalid [.create () 8 1000 0, .handOver ()] ⟨_, rfl⟩ _ rfl ()
    ⟨8, 1, true⟩ rfl rfl
  exact ⟨_, s', rfl, hs'⟩

/-- The loop adds a one-shot timer, runs it and deletes it before `addTimer` reads its number. -/
theorem readSequence_after_delete :
    runAll step (new : TimerThreads ℚ Unit) [.create () 8 1000 0, .handOver (), .functor 10,
      .beginRead 1000 1000, .run, .endRead 1001,
        .readSequence ()] = .error (.fault .badAccess) := by
  rw [← map_eq_error (f := fun _ ↦ ())]
  decide +kernel

end Runs

end TimerThreads

end Fishnet
