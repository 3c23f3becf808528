import Fishnet.Timer.TimerIndex

/-!
# What the functions of the timer queue do

For each function of `TimerQueue` there is an equation, valid under the invariant: the function goes
through, with no assertion failing and no deleted timer read, and it leaves the state named on the
right. For the functions with cases the states are listed by an inductive predicate (`CallCase`,
`ResetCase`, `PhaseCase`), so that a proof about all calls is a proof about four of them.

`handleRead` is taken apart once, into `Stages`: after `beginRead` the batch is idle, the callback
phase is a run of `phaseStep`, and `reset` disposes of the batch.

## Main results

* `TimerQueue.call_cases`, `TimerQueue.handleRead_spec`: what a lawful call and a lawful
  `handleRead` do.
* `TimerQueue.index_agreement`: on every run, at every call boundary, the two sets describe the same
  live timers.
-/

namespace Fishnet

open Function List OrderedSet

variable {D : Type}

/-! ## Calls -/

namespace TimerQueue

variable {q q' : TimerQueue D} {e : Entry} {a : ℕ} {t : Timer D} {idle out : List ℕ}
    {now : Timestamp}

/-- The invariant of the queue, `out` being the timers of the batch under way. -/
def Inv (q : TimerQueue D) (out : List ℕ) : Prop :=
  Indexed q.heap q.timers q.activeTimers (q.handedOver ++ out)

theorem deref_of (h : q.heap a = some t) : q.deref a = .ok t := by
  rw [deref, h]

/-- What `insert` does to the queue. -/
def activate (q : TimerQueue D) (a : ℕ) (t : Timer D) : TimerQueue D :=
  { q with
    timers := q.timers.insert (entry t.expiration a)
    activeTimers := q.activeTimers.insert (activeTimer a t.sequence) }

theorem insert_eq (h : Indexed q.heap q.timers q.activeTimers (a :: idle))
    (ht : q.heap a = some t) :
    q.insert a = .ok (q.earliestChanged t.expiration, q.activate a t) := by
  obtain ⟨hntimers, hnactive⟩ := h.notMem_of_idle mem_cons_self
  rw [insert, assert_bind_of h.size_eq, deref_of ht]
  change (assert _ >>= fun _ ↦ _) = _
  rw [assert_bind_of (hntimers _), assert_bind_of (hnactive _),
    assert_bind_of (h.activate ht).size_eq]
  rfl

/-- Arm the timerfd or not. -/
def armIf (b : Bool) (q : TimerQueue D) (expiration now : Timestamp) : TimerQueue D :=
  if b then q.resetTimerfd expiration now else q

section ArmIf

variable {b : Bool} {w : Timestamp}

@[simp] theorem armIf_heap : (armIf b q w now).heap = q.heap := by
  cases b <;> rfl

@[simp] theorem armIf_timers : (armIf b q w now).timers = q.timers := by
  cases b <;> rfl

@[simp] theorem armIf_activeTimers : (armIf b q w now).activeTimers = q.activeTimers := by
  cases b <;> rfl

@[simp] theorem armIf_handedOver : (armIf b q w now).handedOver = q.handedOver := by
  cases b <;> rfl

@[simp] theorem armIf_cancelingTimers : (armIf b q w now).cancelingTimers = q.cancelingTimers := by
  cases b <;> rfl

@[simp] theorem armIf_callingExpiredTimers :
    (armIf b q w now).callingExpiredTimers = q.callingExpiredTimers := by
  cases b <;> rfl

@[simp] theorem armIf_numCreated : (armIf b q w now).numCreated = q.numCreated := by
  cases b <;> rfl

@[simp] theorem armIf_trace : (armIf b q w now).trace = q.trace := by
  cases b <;> rfl

end ArmIf

/-- What `addTimerInLoop` does to the queue, apart from the timerfd. -/
def addTimer (q : TimerQueue D) (a : ℕ) (t : Timer D) : TimerQueue D :=
  ({ q.activate a t with handedOver := q.handedOver.erase a } : TimerQueue D).emit
    (.added (activeTimer a t.sequence) t.expiration)

theorem Inv.handed (h : q.Inv out) (ha : a ∈ q.handedOver) :
    Indexed q.heap q.timers q.activeTimers (a :: (q.handedOver.erase a ++ out)) :=
  h.perm ((perm_cons_erase ha).append_right out)

theorem addTimerInLoop_eq (h : q.Inv out) (ha : a ∈ q.handedOver) (ht : q.heap a = some t) :
    q.addTimerInLoop a now =
      .ok (armIf (q.earliestChanged t.expiration) (q.addTimer a t) t.expiration now) := by
  have hderef : (q.activate a t).deref a = .ok t := deref_of ht
  rw [addTimerInLoop, insert_eq (h.handed ha) ht]
  change ((q.activate a t).deref a >>= _) = _
  rw [hderef]
  rfl

/-- What `cancelInLoop` does to the queue when the timer is active. -/
def removeTimer (q : TimerQueue D) (a : ℕ) (t : Timer D) : TimerQueue D :=
  { (q.emit (.cancelled (activeTimer a t.sequence))).store a none with
    timers := q.timers.erase (entry t.expiration a)
    activeTimers := q.activeTimers.erase (activeTimer a t.sequence) }

theorem cancelInLoop_of_active (h : q.Inv out) (ht : q.heap a = some t)
    (hact : activeTimer a t.sequence ∈ q.activeTimers) :
    q.cancelInLoop (activeTimer a t.sequence) = .ok (q.removeTimer a t) := by
  have hderef : (q.emit (.cancelled (activeTimer a t.sequence))).deref a = .ok t := deref_of ht
  have hmem : entry t.expiration a ∈ q.timers := (h.timers_iff _ _).mpr ⟨t, ht, rfl, hact⟩
  rw [cancelInLoop, assert_bind_of h.size_eq]
  change (if activeTimer a t.sequence ∈ q.activeTimers then
    (q.emit (.cancelled (activeTimer a t.sequence))).deref a >>= _ else _) = _
  rw [if_pos hact, hderef]
  change (assert (entry t.expiration a ∈ q.timers) >>= _) = _
  rw [assert_bind_of hmem]
  exact assert_bind_of (h.deactivate ht hact).size_eq _

/-- What `cancelInLoop` does otherwise. -/
def noteCancel (q : TimerQueue D) (id : ActiveTimer) : TimerQueue D :=
  { q.emit (.cancelled id) with
    cancelingTimers :=
      if q.callingExpiredTimers then q.cancelingTimers.insert id else q.cancelingTimers }

theorem cancelInLoop_of_notMem (h : q.Inv out) {id : ActiveTimer} (hid : id ∉ q.activeTimers) :
    q.cancelInLoop id = .ok (q.noteCancel id) := by
  rw [cancelInLoop, assert_bind_of h.size_eq]
  change (if id ∈ q.activeTimers then _ else _) = _
  rw [if_neg hid]
  change (assert (q.timers.size = q.activeTimers.size) >>= _) = _
  rw [assert_bind_of h.size_eq, noteCancel]
  change Except.ok (if q.callingExpiredTimers = true then _ else _) = _
  split <;> rfl

/-! ## Taking out what is due -/

/-- The timers of a batch. -/
def addresses (expired : List Entry) : List ℕ := expired.map fun e ↦ (ofLex e).2

theorem deactivate_eq (ht : q.heap (ofLex e).2 = some t)
    (hact : activeTimer (ofLex e).2 t.sequence ∈ q.activeTimers) :
    q.deactivate e =
      .ok { q with activeTimers := q.activeTimers.erase (activeTimer (ofLex e).2 t.sequence) } := by
  unfold deactivate
  simp only [deref_of ht]
  exact assert_bind_of hact _

/-- The loop of `getExpired` takes out of `activeTimers_` what has been taken out of `timers_`. -/
theorem runAll_deactivate {timers : OrderedSet Entry} {l : List Entry}
    (h : Indexed q.heap timers q.activeTimers idle) (hl : ∀ e ∈ l, e ∈ timers) (hnd : l.Nodup) :
    ∃ active, runAll deactivate q l = .ok { q with activeTimers := active } ∧
      Indexed q.heap (l.foldl OrderedSet.erase timers) active (idle ++ addresses l) := by
  induction l generalizing q timers idle with
  | nil => exact ⟨q.activeTimers, rfl, by rwa [addresses, map_nil, append_nil]⟩
  | cons e l ih =>
    obtain ⟨hne, hnd⟩ := nodup_cons.mp hnd
    obtain ⟨t, ht, hexp, hact⟩ := (h.timers_iff (ofLex e).1 (ofLex e).2).mp
      (hl e mem_cons_self)
    have he : entry t.expiration (ofLex e).2 = e := by
      rw [hexp]
      rfl
    have hstep := h.deactivate ht hact
    rw [he] at hstep
    have hl' : ∀ e' ∈ l, e' ∈ timers.erase e := fun e' he' ↦
      mem_erase.mpr ⟨ne_of_mem_of_not_mem he' hne, hl e' (mem_cons_of_mem _ he')⟩
    obtain ⟨active, hrun, hidx⟩ := ih
      (q := { q with activeTimers := q.activeTimers.erase (activeTimer (ofLex e).2 t.sequence) })
      hstep hl' hnd
    refine ⟨active, ?_, hidx.perm perm_middle.symm⟩
    rw [runAll, deactivate_eq ht hact]
    exact hrun

/-- `getExpired` goes through. It takes out the timers that are due, and they become idle. -/
theorem getExpired_spec (h : Indexed q.heap q.timers q.activeTimers idle) (now : Timestamp) :
    ∃ active, q.getExpired now = .ok (q.timers.below (sentry now),
        { q with timers := q.timers.notBelow (sentry now), activeTimers := active }) ∧
      Indexed q.heap (q.timers.notBelow (sentry now)) active
        (idle ++ addresses (q.timers.below (sentry now))) := by
  have hnext : (q.timers.notBelow (sentry now)).min?.all fun e ↦ decide (now < (ofLex e).1) := by
    cases hmin : (q.timers.notBelow (sentry now)).min? with
    | none => rfl
    | some e =>
      obtain ⟨hmem, hle⟩ := mem_notBelow.mp (min?_eq_some.mp hmin).1
      obtain ⟨t, ht, -, -⟩ := (h.timers_iff (ofLex e).1 (ofLex e).2).mp hmem
      have hlt : ¬entry (ofLex e).1 (ofLex e).2 < sentry now := not_lt.mpr hle
      rw [entry_lt_sentry (h.bounded _ t ht), not_le] at hlt
      exact decide_eq_true hlt
  obtain ⟨active, hrun, hidx⟩ := runAll_deactivate
    (q := { q with timers := q.timers.notBelow (sentry now) }) (l := q.timers.below (sentry now)) h
    (fun e he ↦ (mem_below.mp he).1) ((below_sorted _ _).imp ne_of_lt)
  rw [foldl_erase_below] at hidx
  refine ⟨active, ?_, hidx⟩
  unfold getExpired
  simp only [assert_bind_of h.size_eq, assert_bind_of hnext]
  rw [hrun]
  exact assert_bind_of hidx.size_eq _

/-- The expiration `reset` arms the timerfd for. -/
def earliest (q : TimerQueue D) : Timestamp :=
  match q.timers.min? with
  | none => 0
  | some e => (ofLex e).1

theorem nextExpire_eq (h : Indexed q.heap q.timers q.activeTimers idle) :
    q.nextExpire = .ok q.earliest := by
  unfold nextExpire earliest
  cases hmin : q.timers.min? with
  | none => rfl
  | some e =>
    obtain ⟨t, ht, hexp, -⟩ := (h.timers_iff (ofLex e).1 (ofLex e).2).mp
      (min?_eq_some.mp hmin).1
    simp only [deref_of ht]
    rw [← hexp]
    rfl

/-- The state after `beginRead`. -/
def opened (q : TimerQueue D) (now readAt : Timestamp) (active : OrderedSet ActiveTimer) :
    TimerQueue D :=
  { q with
    timerfd := readTimerfd q.timerfd readAt
    timers := q.timers.notBelow (sentry now)
    activeTimers := active
    callingExpiredTimers := true
    cancelingTimers := ∅ }

/-- The timers that `handleRead` runs. -/
def expired (q : TimerQueue D) (now : Timestamp) : List Entry := q.timers.below (sentry now)

theorem beginRead_spec (h : q.Inv []) (now readAt : Timestamp) :
    ∃ active, q.beginRead now readAt = .ok (q.expired now, q.opened now readAt active) ∧
      (q.opened now readAt active).Inv (addresses (q.expired now)) := by
  obtain ⟨active, hok, hidx⟩ := getExpired_spec
    (q := { q with timerfd := readTimerfd q.timerfd readAt }) h now
  rw [append_nil] at hidx
  refine ⟨active, ?_, hidx⟩
  rw [beginRead, hok]
  rfl

theorem mem_addresses_of_phase {callbacks : Entry → List (Call D)} {l : List Entry}
    {p : PhaseStep D} (hp : p ∈ phase callbacks l) (he : p = .run e) :
    (ofLex e).2 ∈ addresses l := by
  subst he
  obtain ⟨e', he', hmem⟩ := mem_flatMap.mp hp
  rcases mem_cons.mp hmem with hrun | hcall
  · cases hrun
    exact mem_map.mpr ⟨e, he', rfl⟩
  · obtain ⟨c, -, hc⟩ := mem_map.mp hcall
    cases hc

/-- The two sets of the queue describe the same live timers. -/
structure Agrees (q : TimerQueue D) : Prop where
  timers_iff : ∀ w a, entry w a ∈ q.timers ↔
    ∃ t, q.heap a = some t ∧ activeTimer a t.sequence ∈ q.activeTimers ∧ t.expiration = w
  timers_live : ∀ e ∈ q.timers, ∃ t, q.heap (ofLex e).2 = some t
  active_live : ∀ id ∈ q.activeTimers,
    ∃ t, q.heap (ofLex id).1 = some t ∧ t.sequence = (ofLex id).2
  timers_distinct : (q.timers.toList.map fun e ↦ (ofLex e).2).Nodup
  active_distinct : (q.activeTimers.toList.map fun id ↦ (ofLex id).1).Nodup

theorem Inv.agrees (h : q.Inv out) : q.Agrees where
  timers_iff w a := by
    rw [h.timers_iff]
    exact exists_congr fun t ↦ and_congr_right fun _ ↦ and_comm
  timers_live e he := by
    obtain ⟨t, ht, -⟩ := (h.timers_iff (ofLex e).1 (ofLex e).2).mp he
    exact ⟨t, ht⟩
  active_live id hid := h.active_live _ _ hid
  timers_distinct := by
    refine q.timers.nodup.map_on fun e he e' he' heq ↦ ?_
    obtain ⟨t, ht, hexp, -⟩ := (h.timers_iff (ofLex e).1 (ofLex e).2).mp he
    obtain ⟨t', ht', hexp', -⟩ := (h.timers_iff (ofLex e').1 (ofLex e').2).mp he'
    rw [heq, ht', Option.some_inj] at ht
    have hwhen : (ofLex e).1 = (ofLex e').1 := by
      rw [← hexp, ← hexp', ht]
    exact entry_inj.mpr ⟨hwhen, heq⟩
  active_distinct := by
    refine q.activeTimers.nodup.map_on fun id hid id' hid' heq ↦ ?_
    obtain ⟨t, ht, hseq⟩ := h.active_live (ofLex id).1 (ofLex id).2 hid
    obtain ⟨t', ht', hseq'⟩ := h.active_live (ofLex id').1 (ofLex id').2 hid'
    rw [heq, ht', Option.some_inj] at ht
    have hsequence : (ofLex id).2 = (ofLex id').2 := by
      rw [← hseq, ← hseq', ht]
    exact activeTimer_inj.mpr ⟨heq, hsequence⟩

theorem new_inv : (new : TimerQueue D).Inv [] := by
  refine ⟨fun w a ↦ ?_, ?_, rfl, ?_, nodup_nil, ?_⟩
  · refine iff_of_false (notMem_empty _) ?_
    rintro ⟨t, ht, -⟩
    cases ht
  · exact fun a n h ↦ absurd h (notMem_empty _)
  · exact fun a h ↦ absurd h not_mem_nil
  · exact fun a t h ↦ by cases h

variable [Seconds D]

/-! ## The calls of the loop -/

/-- The cases of a lawful call: it goes through, and this is the state it leaves. -/
inductive CallCase (q : TimerQueue D) : Call D → TimerQueue D → Prop
  | newTimer {a : ℕ} (w : Timestamp) (i : D) (hfree : q.heap a = none) (hlt : a < uintptrMax) :
      CallCase q (.newTimer a w i) (q.newTimer a w i)
  | addTimer {a : ℕ} {t : Timer D} (now : Timestamp) (ha : a ∈ q.handedOver)
      (ht : q.heap a = some t) :
      CallCase q (.addTimerInLoop a now)
        (armIf (q.earliestChanged t.expiration) (q.addTimer a t) t.expiration now)
  | removeTimer {a : ℕ} {t : Timer D} (ht : q.heap a = some t)
      (hact : activeTimer a t.sequence ∈ q.activeTimers) :
      CallCase q (.cancelInLoop (activeTimer a t.sequence)) (q.removeTimer a t)
  | noteCancel {id : ActiveTimer} (hid : id ∉ q.activeTimers) :
      CallCase q (.cancelInLoop id) (q.noteCancel id)

theorem call_cases {c : Call D} (h : q.Inv out) (hc : q.Lawful c) :
    ∃ q', q.call c = .ok q' ∧ CallCase q c q' := by
  cases c with
  | newTimer a w i => exact ⟨_, rfl, .newTimer w i hc.1 hc.2⟩
  | addTimerInLoop a now =>
    obtain ⟨t, ht, -⟩ := h.idle_live a (mem_append_left _ hc)
    exact ⟨_, addTimerInLoop_eq h hc ht, .addTimer now hc ht⟩
  | cancelInLoop id =>
    by_cases hid : id ∈ q.activeTimers
    · obtain ⟨t, ht, hseq⟩ := h.active_live (ofLex id).1 (ofLex id).2 hid
      have he : id = activeTimer (ofLex id).1 t.sequence := by
        rw [hseq]
        rfl
      rw [he] at hid ⊢
      exact ⟨_, cancelInLoop_of_active h ht hid, .removeTimer ht hid⟩
    · exact ⟨_, cancelInLoop_of_notMem h hid, .noteCancel hid⟩

theorem callCase_of_eq_ok {c : Call D} (h : q.Inv out) (hc : q.Lawful c) (hok : q.call c = .ok q') :
    CallCase q c q' := by
  obtain ⟨q'', hok', hcase⟩ := call_cases h hc
  rw [hok] at hok'
  cases hok'
  exact hcase

theorem CallCase.inv {c : Call D} (hc : CallCase q c q') (h : q.Inv out) : q'.Inv out := by
  cases hc with
  | newTimer w i hfree hlt =>
    refine (Indexed.alloc h hfree hlt).perm ?_
    change (_ :: (q.handedOver ++ out)).Perm ((q.handedOver ++ [_]) ++ out)
    rw [append_assoc]
    exact perm_middle.symm
  | addTimer now ha ht =>
    rw [Inv, armIf_heap, armIf_timers, armIf_activeTimers, armIf_handedOver]
    exact (h.handed ha).activate ht
  | removeTimer ht hact => exact (h.deactivate ht hact).free
  | noteCancel hid => exact h

/-! ## The end of a batch -/

/-- The cases of one round of `reset`. -/
inductive ResetCase (now : Timestamp) (q : TimerQueue D) (a : ℕ) : TimerQueue D → Prop
  | rearm {t : Timer D} (ht : q.heap a = some t)
      (hrep : t.repeats ∧ activeTimer a t.sequence ∉ q.cancelingTimers) :
      ResetCase now q a ((q.store a (some (t.restart now))).activate a (t.restart now))
  | delete {t : Timer D} (ht : q.heap a = some t)
      (hrep : ¬(t.repeats ∧ activeTimer a t.sequence ∉ q.cancelingTimers)) :
      ResetCase now q a (q.store a none)

theorem resetOne_cases (h : Indexed q.heap q.timers q.activeTimers ((ofLex e).2 :: idle))
    (now : Timestamp) :
    ∃ q', resetOne now q e = .ok q' ∧ ResetCase now q (ofLex e).2 q' ∧
      Indexed q'.heap q'.timers q'.activeTimers idle := by
  obtain ⟨t, ht, -⟩ := h.idle_live _ mem_cons_self
  unfold resetOne
  simp only [deref_of ht]
  change ∃ q', (if t.repeats ∧ activeTimer (ofLex e).2 t.sequence ∉ q.cancelingTimers then _
    else _) = Except.ok q' ∧ _
  by_cases hrep : t.repeats ∧ activeTimer (ofLex e).2 t.sequence ∉ q.cancelingTimers
  · have hmod : Indexed (update q.heap (ofLex e).2 (some (t.restart now))) q.timers
        q.activeTimers ((ofLex e).2 :: idle) := h.modify ht
    have hself : (q.store (ofLex e).2 (some (t.restart now))).heap (ofLex e).2 =
        some (t.restart now) := update_self ..
    rw [if_pos hrep, insert_eq hmod hself]
    exact ⟨_, rfl, .rearm ht hrep, hmod.activate hself⟩
  · rw [if_neg hrep]
    exact ⟨_, rfl, .delete ht hrep, h.free⟩

/-- What the loop of `reset` does to the timers `l`: the repeating ones that have not been cancelled
are restarted and entered again, the others are deleted, and nothing else changes. -/
structure Resets (now : Timestamp) (l : List ℕ) (q q' : TimerQueue D) : Prop where
  heap_of_mem : ∀ b ∈ l, ∃ t, q.heap b = some t ∧ q'.heap b =
    if t.repeats ∧ activeTimer b t.sequence ∉ q.cancelingTimers then some (t.restart now) else none
  heap_of_notMem : ∀ b ∉ l, q'.heap b = q.heap b
  timers_iff : ∀ w b, entry w b ∈ q'.timers ↔ entry w b ∈ q.timers ∨
    b ∈ l ∧ ∃ t, q'.heap b = some t ∧ t.expiration = w
  frame : q' = { q with heap := q'.heap, timers := q'.timers, activeTimers := q'.activeTimers }

theorem ResetCase.resets (h : ResetCase now q a q') : Resets now [a] q q' := by
  cases h with
  | rearm ht hrep =>
    refine ⟨fun b hb ↦ ?_, fun b hb ↦ ?_, fun w b ↦ ?_, rfl⟩
    · rw [mem_singleton.mp hb]
      exact ⟨_, ht, (update_self ..).trans (if_pos hrep).symm⟩
    · exact update_of_ne (ne_of_not_mem_cons hb) ..
    · rw [mem_singleton]
      refine (mem_insert).trans ?_
      rw [entry_inj, or_comm]
      refine or_congr_right ?_
      constructor
      · rintro ⟨rfl, rfl⟩
        exact ⟨rfl, _, update_self .., rfl⟩
      · rintro ⟨rfl, u, hu, rfl⟩
        cases (update_self ..).symm.trans hu
        exact ⟨rfl, rfl⟩
  | delete ht hrep =>
    refine ⟨fun b hb ↦ ?_, fun b hb ↦ ?_, fun w b ↦ ?_, rfl⟩
    · rw [mem_singleton.mp hb]
      exact ⟨_, ht, (update_self ..).trans (if_neg hrep).symm⟩
    · exact update_of_ne (ne_of_not_mem_cons hb) ..
    · rw [mem_singleton]
      refine (or_iff_left ?_).symm
      rintro ⟨rfl, u, hu, -⟩
      cases (update_self ..).symm.trans hu

theorem Resets.cons {q₁ : TimerQueue D} {l : List ℕ} (h : Resets now [a] q q₁)
    (hl : Resets now l q₁ q') (ha : a ∉ l) : Resets now (a :: l) q q' := by
  have hcanceling : q₁.cancelingTimers = q.cancelingTimers := by
    rw [h.frame]
  refine ⟨fun b hb ↦ ?_, fun b hb ↦ ?_, fun w b ↦ ?_, ?_⟩
  · rcases mem_cons.mp hb with rfl | hb
    · rw [hl.heap_of_notMem b ha]
      exact h.heap_of_mem b (mem_singleton_self b)
    · have hne : b ∉ [a] := not_mem_cons_of_ne_of_not_mem
        (ne_of_mem_of_not_mem hb ha) not_mem_nil
      rw [← h.heap_of_notMem b hne, ← hcanceling]
      exact hl.heap_of_mem b hb
  · obtain ⟨hne, hb⟩ := not_or.mp (mem_cons.not.mp hb)
    rw [hl.heap_of_notMem b hb, h.heap_of_notMem b (mem_singleton.not.mpr hne)]
  · rw [hl.timers_iff, h.timers_iff, mem_singleton, mem_cons, or_and_right, or_assoc]
    refine or_congr_right (or_congr_left (and_congr_right fun hb ↦ ?_))
    rw [hl.heap_of_notMem b (hb ▸ ha)]
  · rw [hl.frame, h.frame]

theorem runAll_resetOne {l : List Entry}
    (h : Indexed q.heap q.timers q.activeTimers (q.handedOver ++ addresses l)) (now : Timestamp) :
    ∃ q', runAll (resetOne now) q l = .ok q' ∧ Resets now (addresses l) q q' ∧
      Indexed q'.heap q'.timers q'.activeTimers q'.handedOver := by
  induction l generalizing q with
  | nil =>
    refine ⟨q, rfl, ⟨?_, fun b _ ↦ rfl, ?_, rfl⟩, by simpa [addresses] using h⟩
    · exact fun b hb ↦ absurd hb not_mem_nil
    · exact fun w b ↦ (or_iff_left fun hb ↦ not_mem_nil hb.1).symm
  | cons e l ih =>
    obtain ⟨q₁, hstep, hcase, hidx⟩ := resetOne_cases (e := e) (h.perm perm_middle) now
    have hhanded : q₁.handedOver = q.handedOver := by
      rw [hcase.resets.frame]
    rw [← hhanded] at hidx
    obtain ⟨q', hrun, hresets, hidx'⟩ := ih hidx
    have hnot : (ofLex e).2 ∉ addresses l :=
      (nodup_cons.mp (nodup_append.mp h.idle_nodup).2.1).1
    refine ⟨q', ?_, hcase.resets.cons hresets hnot, hidx'⟩
    rw [runAll, hstep]
    exact hrun

/-- `reset` goes through: after the loop it arms the timerfd for the earliest timer, if that is a
valid timestamp. -/
theorem reset_spec {l : List Entry}
    (h : Indexed q.heap q.timers q.activeTimers (q.handedOver ++ addresses l))
    (now armAt : Timestamp) :
    ∃ q', q.reset l now armAt = .ok (armIf (decide (0 < q'.earliest)) q' q'.earliest armAt) ∧
      Resets now (addresses l) q q' ∧
      Indexed q'.heap q'.timers q'.activeTimers q'.handedOver := by
  obtain ⟨q', hrun, hresets, hidx⟩ := runAll_resetOne h now
  refine ⟨q', ?_, hresets, hidx⟩
  rw [reset, hrun]
  change (q'.nextExpire >>= _) = _
  rw [nextExpire_eq hidx, armIf]
  simp only [decide_eq_true_eq]
  rfl

/-! ## The callback phase -/

/-- A step of the callback phase is a lawful call, or starts a timer of the batch. -/
def InPhase (out : List ℕ) (q : TimerQueue D) (p : PhaseStep D) : Prop :=
  (∀ e, p = .run e → (ofLex e).2 ∈ out) ∧ q.LawfulPhase p

/-- The cases of a step of the callback phase. -/
inductive PhaseCase (out : List ℕ) (q : TimerQueue D) : PhaseStep D → TimerQueue D → Prop
  | run {e : Entry} {t : Timer D} (he : (ofLex e).2 ∈ out) (ht : q.heap (ofLex e).2 = some t) :
      PhaseCase out q (.run e) (q.emit (.ran (activeTimer (ofLex e).2 t.sequence)))
  | call {c : Call D} {q' : TimerQueue D} (hc : CallCase q c q') : PhaseCase out q (.call c) q'

theorem phaseStep_cases {p : PhaseStep D} (h : q.Inv out) (hp : InPhase out q p) :
    ∃ q', q.phaseStep p = .ok q' ∧ PhaseCase out q p q' ∧ q'.Inv out := by
  cases p with
  | run e =>
    have he := hp.1 e rfl
    obtain ⟨t, ht, -⟩ := h.idle_live _ (mem_append_right _ he)
    have hok : q.phaseStep (.run e) =
        .ok (q.emit (.ran (activeTimer (ofLex e).2 t.sequence))) := by
      rw [phaseStep, deref_of ht]
      rfl
    exact ⟨_, hok, .run he ht, h⟩
  | call c =>
    obtain ⟨q', hok, hcase⟩ := call_cases h hp.2
    exact ⟨q', hok, .call hcase, hcase.inv h⟩

theorem runAll_phaseStep {ps : List (PhaseStep D)} (h : q.Inv out)
    (hps : Along phaseStep (InPhase out) q ps) :
    ∃ q', runAll phaseStep q ps = .ok q' ∧ q'.Inv out :=
  runAll_total (I := fun s ↦ s.Inv out) (fun _ _ hs hp ↦
    let ⟨s', hok, _, hs'⟩ := phaseStep_cases hs hp
    ⟨s', hok, hs'⟩) h hps

/-- The stages of a `handleRead` that goes through: `q₁` when the first callback is started, `q₂`
after the last one, and `q₃` before the timerfd is armed. -/
structure Stages (q : TimerQueue D) (now readAt : Timestamp) (callbacks : Entry → List (Call D))
    (active : OrderedSet ActiveTimer) (q₂ q₃ : TimerQueue D) : Prop where
  opened_inv : (q.opened now readAt active).Inv (addresses (q.expired now))
  along : Along phaseStep (InPhase (addresses (q.expired now))) (q.opened now readAt active)
    (phase callbacks (q.expired now))
  run : runAll phaseStep (q.opened now readAt active) (phase callbacks (q.expired now)) = .ok q₂
  called_inv : q₂.Inv (addresses (q.expired now))
  resets : Resets now (addresses (q.expired now)) { q₂ with callingExpiredTimers := false } q₃
  reset_inv : q₃.Inv []

theorem handleRead_spec {readAt armAt : Timestamp} {callbacks : Entry → List (Call D)}
    (h : q.Inv []) (hl : q.LawfulAct (.handleRead now readAt armAt callbacks)) :
    ∃ active q₂ q₃, Stages q now readAt callbacks active q₂ q₃ ∧
      q.handleRead now readAt armAt callbacks =
        .ok (armIf (decide (0 < q₃.earliest)) q₃ q₃.earliest armAt) := by
  obtain ⟨active, hbegin, hinv⟩ := beginRead_spec h now readAt
  have halong : Along phaseStep (InPhase (addresses (q.expired now))) (q.opened now readAt active)
      (phase callbacks (q.expired now)) :=
    along_and_of_forall (fun p hp e he ↦ mem_addresses_of_phase hp he) (hl _ hbegin)
  obtain ⟨q₂, hrun, hinv₂⟩ := runAll_phaseStep hinv halong
  obtain ⟨q₃, hreset, hresets, hidx⟩ := reset_spec
    (q := { q₂ with callingExpiredTimers := false }) hinv₂ now armAt
  refine ⟨active, q₂, q₃, ⟨hinv, halong, hrun, hinv₂, hresets, ?_⟩, ?_⟩
  · rwa [Inv, append_nil]
  · rw [handleRead, hbegin]
    change (runAll phaseStep (q.opened now readAt active) _ >>= _) = _
    rw [hrun]
    exact hreset

theorem step_inv {act : Act D} (h : q.Inv []) (hl : q.LawfulAct act) :
    ∃ q', q.step act = .ok q' ∧ q'.Inv [] := by
  cases act with
  | call c =>
    obtain ⟨q', hok, hcase⟩ := call_cases h hl
    exact ⟨q', hok, hcase.inv h⟩
  | handleRead now readAt armAt callbacks =>
    obtain ⟨active, q₂, q₃, hstages, hok⟩ := handleRead_spec h hl
    refine ⟨_, hok, ?_⟩
    rw [Inv, armIf_heap, armIf_timers, armIf_activeTimers, armIf_handedOver]
    exact hstages.reset_inv

theorem run_inv {acts : List (Act D)} (h : Along step LawfulAct (new : TimerQueue D) acts) :
    ∃ q : TimerQueue D, runAll step new acts = .ok q ∧ q.Inv [] :=
  runAll_total (fun _ _ hs hp ↦ step_inv hs hp) new_inv h

/-! ## Index agreement -/

/-- **The indices agree.** A run of `addTimerInLoop`, `cancelInLoop` and `handleRead` never fails an
assertion and never reads a deleted timer. In the state it leaves the two sets agree. When that
state starts a `handleRead`, they also agree at every call boundary within it. -/
theorem index_agreement (acts : List (Act D))
    (hacts : Along step LawfulAct (new : TimerQueue D) acts) :
    ∃ q : TimerQueue D, runAll step new acts = .ok q ∧ q.Agrees ∧
      ∀ now readAt armAt callbacks, q.LawfulAct (.handleRead now readAt armAt callbacks) →
        ∃ r, q.beginRead now readAt = .ok r ∧ ∀ ps, ps <+: phase callbacks r.1 →
          ∃ q', runAll phaseStep r.2 ps = .ok q' ∧ q'.Agrees := by
  obtain ⟨q, hrun, hinv⟩ := run_inv hacts
  refine ⟨q, hrun, hinv.agrees, fun now readAt armAt callbacks hl ↦ ?_⟩
  obtain ⟨active, hbegin, hopen⟩ := beginRead_spec hinv now readAt
  refine ⟨_, hbegin, fun ps hps ↦ ?_⟩
  obtain ⟨rest, hrest⟩ := hps
  have halong : Along phaseStep (InPhase (addresses (q.expired now))) (q.opened now readAt active)
      (phase callbacks (q.expired now)) :=
    along_and_of_forall (fun p hp e he ↦ mem_addresses_of_phase hp he) (hl _ hbegin)
  rw [← hrest] at halong
  obtain ⟨q', hq', hinv'⟩ := runAll_phaseStep hopen (along_of_append halong)
  exact ⟨q', hq', hinv'.agrees⟩

/-- A one-shot timer and a repeating one are added, and a default `TimerId` is cancelled. -/
def twoTimers : List (Call ℚ) :=
  Call.addTimer 8 1000 0 10 ++ Call.addTimer 16 900 (1 / 2) 20 ++ [.cancelInLoop (activeTimer 0 0)]

/-- The callback of the repeating timer cancels the other one and adds a third, which the callback
of the other one cancels. -/
def cancelSiblings (e : Entry) : List (Call ℚ) :=
  if (ofLex e).2 = 16 then .cancelInLoop (activeTimer 8 1) :: Call.addTimer 24 0 0 1000
  else [.cancelInLoop (activeTimer 24 3)]

theorem index_agreement_cancelSiblings :
    ∃ q : TimerQueue ℚ, q.Agrees ∧ runAll step new
      (twoTimers.map .call ++ [.handleRead 1000 1000 1001 cancelSiblings]) = .ok q := by
  obtain ⟨q, hrun, hagrees, -⟩ := index_agreement
    (twoTimers.map .call ++ [.handleRead 1000 1000 1001 cancelSiblings]) (by decide +kernel)
  exact ⟨q, hagrees, hrun⟩

end TimerQueue

end Fishnet
