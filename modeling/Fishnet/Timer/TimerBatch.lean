import Fishnet.Timer.TimerSpec

/-!
# What one `handleRead` does

While the callbacks of a batch run, the timers of the batch are in neither set of the queue. A
cancel of one of them cannot take it out, and is noted in `cancelingTimers_` for `reset` to act on.
Cancels and additions of other timers take effect at once.

The abstract account is a list of events: callbacks started, timers added, timers cancelled.
`Evolves` says what a stretch of the callback phase does in terms of its events, and composes along
the phase. `reset` then adds the repeating timers of the batch that no event cancelled. Which events
these are is read off the calls that the callbacks make (`TimerQueue.asked`), apart from what the
queue makes of the calls.

## Main definitions

* `TimerQueue.Scheduled`: a timer is in `timers_` with an expiration.
* `TimerEvent.Adds`: events that add a timer and do not cancel it later.
* `TimerQueue.asked`: the events that the calls of the callbacks ask for.
* `TimerQueue.BatchResult`: the effect of a `handleRead`.

## Main results

* `TimerQueue.handleRead_batch`: every `handleRead` has that effect.
-/

namespace Fishnet

open Function List OrderedSet

/-! ## Events -/

namespace TimerEvent

/-- The events add the timer with this expiration, and do not cancel it later. -/
def Adds (es : List TimerEvent) (id : ActiveTimer) (w : Timestamp) : Prop :=
  ∃ es₁ es₂, es = es₁ ++ .added id w :: es₂ ∧ .cancelled id ∉ es₂

/-- The callbacks started, in order. -/
def rans (es : List TimerEvent) : List ActiveTimer :=
  es.filterMap fun e ↦
    match e with
    | .ran id => some id
    | _ => none

/-- The second event does not run a timer that the first one cancels. -/
def Quiet (e e' : TimerEvent) : Prop := ∀ id, e = .cancelled id → e' ≠ .ran id

variable {es es' : List TimerEvent} {id : ActiveTimer} {w : Timestamp}

theorem mem_rans : id ∈ rans es ↔ .ran id ∈ es := by
  rw [rans, mem_filterMap]
  constructor
  · rintro ⟨e, he, heq⟩
    split at heq
    · rwa [Option.some_inj.mp heq] at he
    · cases heq
  · exact fun h ↦ ⟨_, h, rfl⟩

theorem rans_append : rans (es ++ es') = rans es ++ rans es' := filterMap_append

theorem adds_nil : ¬Adds [] id w := by
  rintro ⟨es₁, es₂, h, -⟩
  exact append_ne_nil_of_right_ne_nil es₁ (cons_ne_nil _ _) h.symm

theorem adds_singleton {e : TimerEvent} : Adds [e] id w ↔ e = .added id w := by
  constructor
  · rintro ⟨es₁, es₂, h, -⟩
    cases es₁ with
    | nil => exact (List.cons.inj h).1
    | cons e' es₁ =>
      exact absurd (List.cons.inj h).2.symm
        (append_ne_nil_of_right_ne_nil es₁ (cons_ne_nil _ _))
  · rintro rfl
    exact ⟨[], [], rfl, not_mem_nil⟩

theorem adds_append :
    Adds (es ++ es') id w ↔ Adds es id w ∧ .cancelled id ∉ es' ∨ Adds es' id w := by
  constructor
  · rintro ⟨es₁, es₂, h, hno⟩
    rcases append_eq_append_iff.mp h with ⟨mid, rfl, h'⟩ | ⟨mid, h', hrest⟩
    · exact Or.inr ⟨mid, es₂, h', hno⟩
    · cases mid with
      | nil => exact Or.inr ⟨[], es₂, hrest.symm, hno⟩
      | cons e mid =>
        rw [cons_append, List.cons.injEq] at hrest
        rw [hrest.2, mem_append, not_or] at hno
        rw [← hrest.1] at h'
        exact Or.inl ⟨⟨es₁, mid, h', hno.1⟩, hno.2⟩
  · rintro (⟨⟨es₁, es₂, rfl, hno⟩, hno'⟩ | ⟨es₁, es₂, rfl, hno⟩)
    · refine ⟨es₁, es₂ ++ es', by rw [append_assoc, cons_append], ?_⟩
      rw [mem_append, not_or]
      exact ⟨hno, hno'⟩
    · exact ⟨es ++ es₁, es₂, by rw [append_assoc], hno⟩

end TimerEvent

open TimerEvent

namespace TimerQueue

variable {D : Type} {q q' q₁ q₂ : TimerQueue D} {out : List ℕ} {es es' : List TimerEvent}
  {id : ActiveTimer} {w : Timestamp} {a : ℕ} {t : Timer D}

/-! ## Scheduled timers -/

/-- The timer is in `timers_` with this expiration. -/
def Scheduled (q : TimerQueue D) (id : ActiveTimer) (w : Timestamp) : Prop :=
  entry w (ofLex id).1 ∈ q.timers ∧ ∃ t, q.heap (ofLex id).1 = some t ∧ t.sequence = (ofLex id).2

theorem Inv.mem_active_iff (h : q.Inv out) : id ∈ q.activeTimers ↔ ∃ w, q.Scheduled id w := by
  constructor
  · intro hid
    obtain ⟨t, ht, hseq⟩ := h.active_live (ofLex id).1 (ofLex id).2 hid
    have hact : activeTimer (ofLex id).1 t.sequence ∈ q.activeTimers := by
      rw [hseq]
      exact hid
    exact ⟨t.expiration, (h.timers_iff _ _).mpr ⟨t, ht, rfl, hact⟩, t, ht, hseq⟩
  · rintro ⟨w, hmem, t, ht, hseq⟩
    obtain ⟨t', ht', -, hact⟩ := (h.timers_iff _ _).mp hmem
    rw [ht, Option.some_inj] at ht'
    rw [← ht', hseq] at hact
    exact hact

/-- A timer of the batch is not scheduled while the batch is under way. -/
theorem Inv.not_scheduled_of_out (h : q.Inv out) (ha : (ofLex id).1 ∈ out) : ¬q.Scheduled id w :=
  fun hs ↦ (h.notMem_of_idle (mem_append_right _ ha)).1 w hs.1

theorem scheduled_congr (htimers : q'.timers = q.timers)
    (hheap : entry w (ofLex id).1 ∈ q.timers → q'.heap (ofLex id).1 = q.heap (ofLex id).1) :
    q'.Scheduled id w ↔ q.Scheduled id w := by
  rw [Scheduled, Scheduled, htimers]
  refine and_congr_right fun hmem ↦ ?_
  rw [hheap hmem]

/-! ## The callback phase -/

/-- What a stretch of the callback phase with the events `es` does. -/
structure Evolves (out : List ℕ) (q q' : TimerQueue D) (es : List TimerEvent) : Prop where
  trace : q'.trace = q.trace ++ es
  scheduled : ∀ id w, q'.Scheduled id w ↔ q.Scheduled id w ∧ .cancelled id ∉ es ∨ Adds es id w
  heap : ∀ a ∈ out, q'.heap a = q.heap a
  calling : q'.callingExpiredTimers = q.callingExpiredTimers
  canceling : q.callingExpiredTimers → ∀ a ∈ out, ∀ t, q.heap a = some t →
    (activeTimer a t.sequence ∈ q'.cancelingTimers ↔
      activeTimer a t.sequence ∈ q.cancelingTimers ∨ .cancelled (activeTimer a t.sequence) ∈ es)

theorem Evolves.refl (out : List ℕ) (q : TimerQueue D) : Evolves out q q [] where
  trace := (append_nil _).symm
  scheduled id w := by simp [adds_nil]
  heap _ _ := rfl
  calling := rfl
  canceling _ a _ t _ := by simp

theorem Evolves.trans (h : Evolves out q q₁ es) (h' : Evolves out q₁ q' es') :
    Evolves out q q' (es ++ es') where
  trace := by rw [h'.trace, h.trace, append_assoc]
  scheduled id w := by
    rw [h'.scheduled, h.scheduled, adds_append, mem_append, not_or]
    tauto
  heap a ha := (h'.heap a ha).trans (h.heap a ha)
  calling := h'.calling.trans h.calling
  canceling hcalling a ha t ht := by
    rw [h'.canceling (by rwa [h.calling]) a ha t (by rwa [h.heap a ha]),
      h.canceling hcalling a ha t ht, mem_append, or_assoc]

/-- A step that leaves both sets, the timers of the batch and the noted cancels alone. -/
theorem Evolves.of_silent {e : TimerEvent} (htrace : q'.trace = q.trace ++ [e])
    (hadd : ∀ id w, e ≠ .added id w) (hcancel : ∀ id, e ≠ .cancelled id)
    (htimers : q'.timers = q.timers) (hheap : q'.heap = q.heap)
    (hcalling : q'.callingExpiredTimers = q.callingExpiredTimers)
    (hcanceling : q'.cancelingTimers = q.cancelingTimers) : Evolves out q q' [e] where
  trace := htrace
  scheduled id w := by
    rw [scheduled_congr htimers fun _ ↦ congrFun hheap _, adds_singleton, mem_singleton]
    exact ⟨fun h ↦ Or.inl ⟨h, (hcancel id).symm⟩,
      fun h ↦ h.elim And.left fun h ↦ absurd h (hadd id w)⟩
  heap a _ := congrFun hheap a
  calling := hcalling
  canceling _ a _ t _ := by
    rw [hcanceling, mem_singleton]
    exact (or_iff_left (hcancel _).symm).symm

theorem evolves_addTimer {b : Bool} {now : Timestamp} (ht : q.heap a = some t) :
    Evolves out q (armIf b (q.addTimer a t) t.expiration now)
      [.added (activeTimer a t.sequence) t.expiration] where
  trace := armIf_trace
  scheduled id w := by
    rw [Scheduled, armIf_timers, armIf_heap, adds_singleton]
    change entry w (ofLex id).1 ∈ q.timers.insert (entry t.expiration a) ∧ _ ↔ _
    rw [mem_insert, entry_inj, Scheduled]
    constructor
    · rintro ⟨⟨rfl, rfl⟩ | hmem, u, hu, hseq⟩
      · cases ht.symm.trans hu
        refine Or.inr ?_
        rw [hseq]
        rfl
      · exact Or.inl ⟨⟨hmem, u, hu, hseq⟩, by simp⟩
    · rintro (⟨⟨hmem, hlive⟩, -⟩ | hadd)
      · exact ⟨Or.inr hmem, hlive⟩
      · cases hadd
        exact ⟨Or.inl ⟨rfl, rfl⟩, t, ht, rfl⟩
  heap _ _ := congrFun armIf_heap _
  calling := armIf_callingExpiredTimers
  canceling _ c _ u _ := by
    rw [armIf_cancelingTimers]
    exact (or_iff_left (by simp)).symm

/-- A cancel of an active timer takes it out at once. -/
theorem evolves_removeTimer (h : q.Inv out) (ht : q.heap a = some t)
    (hact : activeTimer a t.sequence ∈ q.activeTimers) :
    Evolves out q (q.removeTimer a t) [.cancelled (activeTimer a t.sequence)] where
  trace := rfl
  scheduled id w := by
    rw [adds_singleton, mem_singleton, or_iff_left (by simp)]
    constructor
    · rintro ⟨hmem, u, hu, hseq⟩
      have hne : (ofLex id).1 ≠ a := by
        intro he
        rw [he] at hu
        cases (update_self ..).symm.trans hu
      refine ⟨⟨(mem_erase.mp hmem).2, u, (update_of_ne hne ..).symm.trans hu,
        hseq⟩, fun he ↦ hne ?_⟩
      cases he
      rfl
    · rintro ⟨⟨hmem, u, hu, hseq⟩, hid⟩
      have hne : (ofLex id).1 ≠ a := by
        rintro rfl
        cases ht.symm.trans hu
        apply hid
        rw [hseq]
        rfl
      exact ⟨mem_erase.mpr ⟨fun he ↦ hne (entry_inj.mp he).2, hmem⟩, u,
        (update_of_ne hne ..).trans hu, hseq⟩
  heap b hb := by
    refine update_of_ne ?_ ..
    exact (h.ne_of_active (mem_append_right _ hb) hact).symm
  calling := rfl
  canceling _ b hb u hu := by
    refine (or_iff_left fun he ↦ ?_).symm
    have hba := h.ne_of_active (mem_append_right _ hb) hact
    rw [mem_singleton, TimerEvent.cancelled.injEq, activeTimer_inj] at he
    exact hba he.1.symm

/-- Any other cancel is noted, and changes nothing else. -/
theorem evolves_noteCancel (h : q.Inv out) (hid : id ∉ q.activeTimers) :
    Evolves out q (q.noteCancel id) [.cancelled id] where
  trace := rfl
  scheduled id' w := by
    rw [adds_singleton, mem_singleton, or_iff_left (by simp)]
    refine ⟨fun hs ↦ ⟨hs, fun he ↦ ?_⟩, And.left⟩
    cases he
    exact hid (h.mem_active_iff.mpr ⟨w, hs⟩)
  heap _ _ := rfl
  calling := rfl
  canceling hcalling b _ u _ := by
    rw [noteCancel, if_pos hcalling, mem_insert, mem_singleton, or_comm,
      TimerEvent.cancelled.injEq]

/-! ## The timers that are due -/

theorem Inv.mem_expired {e : Entry} {now : Timestamp} (h : q.Inv out) :
    e ∈ q.expired now ↔ e ∈ q.timers ∧ (ofLex e).1 ≤ now := by
  rw [expired, mem_below]
  refine and_congr_right fun hmem ↦ ?_
  obtain ⟨t, ht, -⟩ := (h.timers_iff (ofLex e).1 (ofLex e).2).mp hmem
  exact entry_lt_sentry (h.bounded _ t ht)

/-- `getExpired` leaves the timers that are not due. -/
theorem Inv.scheduled_opened {now readAt : Timestamp} {active : OrderedSet ActiveTimer}
    (h : q.Inv out) : (q.opened now readAt active).Scheduled id w ↔ q.Scheduled id w ∧ now < w := by
  have hmem : entry w (ofLex id).1 ∈ q.timers.notBelow (sentry now) ↔
      entry w (ofLex id).1 ∈ q.timers ∧ now < w := by
    rw [mem_notBelow]
    refine and_congr_right fun hmem ↦ ?_
    obtain ⟨t, ht, -⟩ := (h.timers_iff _ _).mp hmem
    rw [← not_lt, entry_lt_sentry (h.bounded _ t ht), not_le]
  change entry w (ofLex id).1 ∈ q.timers.notBelow (sentry now) ∧ _ ↔ _
  rw [hmem, Scheduled]
  tauto

theorem Inv.mem_addresses_expired {now : Timestamp} (h : q.Inv out) (ht : q.heap a = some t) :
    a ∈ addresses (q.expired now) ↔
      ∃ w, q.Scheduled (activeTimer a t.sequence) w ∧ w ≤ now := by
  constructor
  · intro ha
    obtain ⟨e, he, rfl⟩ := mem_map.mp ha
    obtain ⟨hmem, hle⟩ := h.mem_expired.mp he
    exact ⟨(ofLex e).1, ⟨hmem, t, ht, rfl⟩, hle⟩
  · rintro ⟨w, ⟨hmem, -⟩, hle⟩
    exact mem_map.mpr ⟨entry w a, h.mem_expired.mpr ⟨hmem, hle⟩, rfl⟩

/-- The identity of a live timer. -/
def nameOf (q : TimerQueue D) (e : Entry) : ActiveTimer :=
  activeTimer (ofLex e).2 ((q.heap (ofLex e).2).elim 0 Timer.sequence)

theorem nameOf_eq {e : Entry} (h : q.heap (ofLex e).2 = some t) :
    q.nameOf e = activeTimer (ofLex e).2 t.sequence := by
  rw [nameOf, h]
  rfl

/-- The timers that are due at `now`, with their expirations. -/
def batch (q : TimerQueue D) (now : Timestamp) : List (ActiveTimer × Timestamp) :=
  (q.expired now).map fun e ↦ (q.nameOf e, (ofLex e).1)

theorem map_fst_batch (q : TimerQueue D) (now : Timestamp) :
    (q.batch now).map Prod.fst = (q.expired now).map q.nameOf := by
  rw [batch, map_map]
  rfl

theorem Inv.mem_batch {now : Timestamp} (h : q.Inv out) :
    (id, w) ∈ q.batch now ↔ q.Scheduled id w ∧ w ≤ now := by
  rw [batch, mem_map]
  constructor
  · rintro ⟨e, he, heq⟩
    obtain ⟨hmem, hle⟩ := h.mem_expired.mp he
    obtain ⟨t, ht, -⟩ := (h.timers_iff (ofLex e).1 (ofLex e).2).mp hmem
    rw [nameOf_eq ht, Prod.mk.injEq] at heq
    obtain ⟨rfl, rfl⟩ := heq
    exact ⟨⟨hmem, t, ht, rfl⟩, hle⟩
  · rintro ⟨⟨hmem, t, ht, hseq⟩, hle⟩
    refine ⟨entry w (ofLex id).1, h.mem_expired.mpr ⟨hmem, hle⟩, ?_⟩
    rw [nameOf_eq ht]
    change (activeTimer (ofLex id).1 t.sequence, w) = (id, w)
    rw [hseq]
    rfl

theorem Inv.batch_nodup (h : q.Inv out) (now : Timestamp) : ((q.batch now).map Prod.fst).Nodup := by
  rw [map_fst_batch]
  refine List.Nodup.map_on (fun e he e' he' heq ↦ ?_)
    ((below_sorted _ _).imp ne_of_lt)
  have haddr : (ofLex e).2 = (ofLex e').2 := (activeTimer_inj.mp heq).1
  exact inj_on_of_nodup_map h.agrees.timers_distinct (h.mem_expired.mp he).1
    (h.mem_expired.mp he').1 haddr

theorem batch_ordered (q : TimerQueue D) (now : Timestamp) :
    (q.batch now).Pairwise fun x y ↦ x.2 ≤ y.2 := by
  rw [batch, pairwise_map]
  refine (below_sorted _ _).imp fun {e e'} hlt ↦ ?_
  exact Prod.Lex.monotone_fst _ _ hlt.le

/-! ## The callbacks that are started -/

/-- The callbacks that a step of the phase starts, `name` giving the identity of each entry. -/
def started (name : Entry → ActiveTimer) : PhaseStep D → Option ActiveTimer
  | .run e => some (name e)
  | .call _ => none

/-- The timer that a call cancels. -/
def Call.cancels : Call D → Option ActiveTimer
  | .cancelInLoop id => some id
  | _ => none

/-- The timer that a step of the phase cancels. -/
def cancels : PhaseStep D → Option ActiveTimer
  | .run _ => none
  | .call c => c.cancels

/-- `name` gives the identity of each timer of the batch. -/
def Names (q : TimerQueue D) (out : List ℕ) (name : Entry → ActiveTimer) : Prop :=
  ∀ e : Entry, (ofLex e).2 ∈ out →
    ∃ t, q.heap (ofLex e).2 = some t ∧ name e = activeTimer (ofLex e).2 t.sequence

/-- The timers of the batch stay where they are, and keep their names. -/
theorem Evolves.names {name : Entry → ActiveTimer} (h : Evolves out q q' es)
    (hname : q.Names out name) : q'.Names out name := by
  intro e he
  obtain ⟨t, ht, hn⟩ := hname e he
  exact ⟨t, by rw [h.heap _ he, ht], hn⟩

/-- The callbacks of a phase are started in the order of the batch. -/
theorem filterMap_started_phase (name : Entry → ActiveTimer) (callbacks : Entry → List (Call D))
    (l : List Entry) : (phase callbacks l).filterMap (started name) = l.map name := by
  induction l with
  | nil => rfl
  | cons e l ih =>
    have hcalls : ((callbacks e).map PhaseStep.call).filterMap (started name) = [] := by
      rw [filterMap_eq_nil_iff]
      intro p hp
      obtain ⟨c, -, rfl⟩ := mem_map.mp hp
      rfl
    change (PhaseStep.run e :: (callbacks e).map PhaseStep.call ++ phase callbacks l).filterMap
      (started name) = _
    rw [filterMap_append, filterMap_cons, ih, hcalls]
    rfl

/-- A timer is cancelled before it is started if an earlier callback cancels it. -/
theorem pairwise_phase_iff (name : Entry → ActiveTimer) (callbacks : Entry → List (Call D))
    (l : List Entry) :
    (phase callbacks l).Pairwise (fun p p' ↦ ∀ id, cancels p = some id →
      started name p' ≠ some id) ↔
      l.Pairwise fun e e' ↦ name e' ∉ (callbacks e).filterMap Call.cancels := by
  rw [phase, pairwise_flatMap, and_iff_right]
  · refine List.Pairwise.iff fun e e' ↦ ⟨fun h hmem ↦ ?_, fun h p hp p' hp' id hid hstarted ↦ ?_⟩
    · obtain ⟨c, hc, hname⟩ := mem_filterMap.mp hmem
      exact h (.call c) (mem_cons_of_mem _ (mem_map_of_mem hc))
        (.run e') mem_cons_self
        (name e') hname rfl
    · rcases mem_cons.mp hp with rfl | hp
      · cases hid
      · obtain ⟨c, hc, rfl⟩ := mem_map.mp hp
        rcases mem_cons.mp hp' with rfl | hp'
        · cases hstarted
          exact h (mem_filterMap.mpr ⟨c, hc, hid⟩)
        · obtain ⟨c', -, rfl⟩ := mem_map.mp hp'
          cases hstarted
  · intro e _
    refine pairwise_cons.mpr ⟨?_, pairwise_of_forall_mem_list ?_⟩
    · rintro p' - id hid
      cases hid
    · rintro p - p' hp' id - hstarted
      obtain ⟨c, -, rfl⟩ := mem_map.mp hp'
      cases hstarted

variable [Seconds D]

/-- Constructing a timer is not an event: it becomes scheduled only when it is added. -/
theorem evolves_newTimer (h : q.Inv out) (hfree : q.heap a = none) (w : Timestamp) (i : D) :
    Evolves out q (q.newTimer a w i) [] where
  trace := (append_nil _).symm
  scheduled id w' := by
    have hcongr : (q.newTimer a w i).Scheduled id w' ↔ q.Scheduled id w' := by
      refine scheduled_congr rfl fun hmem ↦ update_of_ne ?_ ..
      obtain ⟨t, ht, -⟩ := (h.timers_iff _ _).mp hmem
      rintro rfl
      rw [hfree] at ht
      cases ht
    simp [hcongr, adds_nil]
  heap b hb := by
    refine update_of_ne ?_ ..
    obtain ⟨t, ht, -⟩ := h.idle_live b (mem_append_right _ hb)
    rintro rfl
    rw [hfree] at ht
    cases ht
  calling := rfl
  canceling _ b _ t _ := by simp [newTimer, store]

/-! ## From one step to the whole phase -/

theorem CallCase.evolves {c : Call D} (h : q.Inv out) (hc : CallCase q c q') :
    ∃ es, Evolves out q q' es ∧ rans es = [] ∧ ∀ id, .cancelled id ∈ es ↔ c.cancels = some id := by
  cases hc with
  | newTimer w i hfree hlt =>
    exact ⟨_, evolves_newTimer h hfree w i, rfl, fun id ↦ by simp [Call.cancels]⟩
  | addTimer now ha ht => exact ⟨_, evolves_addTimer ht, rfl, fun id ↦ by simp [Call.cancels]⟩
  | removeTimer ht hact =>
    exact ⟨_, evolves_removeTimer h ht hact, rfl, fun id ↦ by simp [Call.cancels, eq_comm]⟩
  | noteCancel hid =>
    exact ⟨_, evolves_noteCancel h hid, rfl, fun id ↦ by simp [Call.cancels, eq_comm]⟩

theorem PhaseCase.evolves {name : Entry → ActiveTimer} {p : PhaseStep D} (h : q.Inv out)
    (hname : q.Names out name) (hp : PhaseCase out q p q') :
    ∃ es, Evolves out q q' es ∧ rans es = (started name p).toList ∧
      ∀ id, .cancelled id ∈ es ↔ cancels p = some id := by
  cases hp with
  | run he ht =>
    refine ⟨[.ran _], .of_silent rfl ?_ ?_ rfl rfl rfl rfl, ?_, fun id ↦ by simp [cancels]⟩
    · exact fun _ _ h ↦ by cases h
    · exact fun _ h ↦ by cases h
    · obtain ⟨t', ht', hn⟩ := hname _ he
      cases ht.symm.trans ht'
      rw [started, hn]
      rfl
  | call hc => exact hc.evolves h

omit [Seconds D] in
/-- The events of a step are quiet, since it does not both cancel and run. -/
theorem pairwise_quiet_of_step {name : Entry → ActiveTimer} {p : PhaseStep D}
    (hran : rans es = (started name p).toList)
    (hcancel : ∀ id, .cancelled id ∈ es ↔ cancels p = some id) : es.Pairwise Quiet := by
  refine pairwise_of_forall_mem_list ?_
  rintro _ he _ he' id rfl rfl
  have hid := (hcancel id).mp he
  have hid' : id ∈ (started name p).toList := hran ▸ mem_rans.mpr he'
  cases p with
  | run e => cases hid
  | call c => cases hid'

theorem runAll_phaseStep_evolves {name : Entry → ActiveTimer} {ps : List (PhaseStep D)}
    (h : q.Inv out) (hname : q.Names out name) (hps : Along phaseStep (InPhase out) q ps)
    (hrun : runAll phaseStep q ps = .ok q') :
    ∃ es, Evolves out q q' es ∧ rans es = ps.filterMap (started name) ∧
      (es.Pairwise Quiet ↔
        ps.Pairwise fun p p' ↦ ∀ id, cancels p = some id → started name p' ≠ some id) := by
  induction ps generalizing q with
  | nil =>
    cases hrun
    exact ⟨[], .refl out _, rfl, iff_of_true .nil .nil⟩
  | cons p ps ih =>
    obtain ⟨q₁, hok, hcase, hinv⟩ := phaseStep_cases h hps.1
    obtain ⟨es, hes, hran, hcancel⟩ := hcase.evolves h hname
    rw [runAll, hok] at hrun
    obtain ⟨es', hes', hran', hquiet⟩ := ih hinv (hes.names hname) (hps.2 q₁ hok) hrun
    refine ⟨es ++ es', hes.trans hes', ?_, ?_⟩
    · rw [rans_append, hran, hran', filterMap_cons]
      cases started name p <;> rfl
    · rw [pairwise_append, pairwise_cons, hquiet,
        and_iff_right (pairwise_quiet_of_step hran hcancel), and_comm]
      refine and_congr_left fun _ ↦
        ⟨fun h p' hp' id hid hstarted ↦ ?_, fun h e he e' he' id hid hran ↦ ?_⟩
      · refine h _ ((hcancel id).mpr hid) (.ran id) (mem_rans.mp ?_) id rfl rfl
        rw [hran']
        exact mem_filterMap.mpr ⟨p', hp', hstarted⟩
      · subst hid hran
        have hmem := mem_rans.mpr he'
        rw [hran'] at hmem
        obtain ⟨p', hp', hstarted⟩ := mem_filterMap.mp hmem
        exact h p' hp' id ((hcancel id).mp he) hstarted

/-! ## What the callbacks ask for -/

/-- The events that the steps of a phase ask for, one by one. Nothing is executed but `new Timer`:
`made` are the timers constructed so far, `n` is their number. -/
def asked (made : ℕ → Option (Timer D)) (n : ℤ) : List (PhaseStep D) → List TimerEvent
  | [] => []
  | .run e :: ps =>
    .ran (activeTimer (ofLex e).2 ((made (ofLex e).2).elim 0 Timer.sequence)) :: asked made n ps
  | .call (.newTimer a w i) :: ps =>
    asked (update made a (some ⟨w, i, Seconds.positive i, n + 1⟩)) (n + 1) ps
  | .call (.addTimerInLoop a _) :: ps =>
    (made a).toList.map (fun t ↦ .added (activeTimer a t.sequence) t.expiration) ++ asked made n ps
  | .call (.cancelInLoop id) :: ps => .cancelled id :: asked made n ps

/-- The queue does what is asked for, and no more. -/
theorem runAll_phaseStep_trace {made : ℕ → Option (Timer D)} {ps : List (PhaseStep D)}
    (h : q.Inv out) (hmade : ∀ b ∈ q.handedOver ++ out, made b = q.heap b)
    (hps : Along phaseStep (InPhase out) q ps) (hrun : runAll phaseStep q ps = .ok q') :
    q'.trace = q.trace ++ asked made q.numCreated ps := by
  induction ps generalizing q made with
  | nil =>
    cases hrun
    exact (append_nil _).symm
  | cons p ps ih =>
    obtain ⟨q₁, hok, hcase, hinv⟩ := phaseStep_cases h hps.1
    rw [runAll, hok] at hrun
    have hnext : ∀ made, (∀ b ∈ q₁.handedOver ++ out, made b = q₁.heap b) →
        q'.trace = q₁.trace ++ asked made q₁.numCreated ps :=
      fun _ hmade ↦ ih hinv hmade (hps.2 q₁ hok) hrun
    clear ih
    cases hcase with
    | @run e t he ht =>
      have hsame := hmade _ (mem_append_right _ he)
      rw [hnext made hmade, asked, hsame, ht]
      exact append_assoc ..
    | call hc =>
      cases hc with
      | @newTimer a w i hfree hlt =>
        refine hnext _ fun b hb ↦ ?_
        change _ = update q.heap a _ b
        by_cases hba : b = a
        · rw [hba, update_self, update_self]
        · rw [update_of_ne hba, update_of_ne hba]
          exact hmade b (by simpa [newTimer, hba] using hb)
      | @addTimer a t now ha ht =>
        have hkept : ∀ b ∈ (q.addTimer a t).handedOver ++ out, made b = (q.addTimer a t).heap b :=
          fun b hb ↦ hmade b ((erase_sublist.append_right out).subset hb)
        rw [hnext made (by simpa using hkept), asked, hmade a (mem_append_left _ ha), ht]
        simp [addTimer, emit, activate]
      | @removeTimer a t ht hact =>
        rw [hnext made fun b hb ↦ (hmade b hb).trans
          (update_of_ne (h.ne_of_active hb hact).symm ..).symm]
        exact append_assoc ..
      | noteCancel hid =>
        rw [hnext made hmade]
        exact append_assoc ..

/-! ## After the phase -/

theorem restart_sequence (t : Timer D) (now : Timestamp) :
    (t.restart now).sequence = t.sequence := by
  unfold Timer.restart
  split <;> rfl

theorem restart_expiration {now : Timestamp} (h : t.repeats) :
    (t.restart now).expiration = addTime now t.interval := by
  rw [Timer.restart, if_pos h]

/-- `reset` adds the repeating timers of the batch that were not cancelled. -/
theorem Resets.scheduled {now : Timestamp} (hinv : q.Inv out) (h : Resets now out q q') :
    q'.Scheduled id w ↔ q.Scheduled id w ∨ (ofLex id).1 ∈ out ∧
      ∃ t, q.heap (ofLex id).1 = some t ∧ t.sequence = (ofLex id).2 ∧ t.repeats ∧
        id ∉ q.cancelingTimers ∧ w = addTime now t.interval := by
  by_cases ha : (ofLex id).1 ∈ out
  · obtain ⟨t, ht, hheap⟩ := h.heap_of_mem _ ha
    have hout := (hinv.notMem_of_idle (mem_append_right _ ha)).1 w
    rw [Scheduled, h.timers_iff, or_iff_right hout,
      or_iff_right (hinv.not_scheduled_of_out ha), hheap]
    constructor
    · rintro ⟨⟨-, u, hu, rfl⟩, u', hu', hseq⟩
      cases hu.symm.trans hu'
      split_ifs at hu with hrep
      cases hu
      rw [restart_sequence] at hseq
      rw [hseq] at hrep
      exact ⟨ha, t, ht, hseq, hrep.1, hrep.2, restart_expiration hrep.1⟩
    · rintro ⟨-, u, hu, hseq, hrep, hnot, rfl⟩
      cases ht.symm.trans hu
      have hcond : t.repeats ∧ activeTimer (ofLex id).1 t.sequence ∉ q.cancelingTimers := by
        rw [hseq]
        exact ⟨hrep, hnot⟩
      rw [if_pos hcond]
      exact ⟨⟨ha, _, rfl, restart_expiration hrep⟩, _, rfl, (restart_sequence ..).trans hseq⟩
  · have hmem : entry w (ofLex id).1 ∈ q'.timers ↔ entry w (ofLex id).1 ∈ q.timers := by
      rw [h.timers_iff]
      exact or_iff_left fun hno ↦ ha hno.1
    rw [Scheduled, hmem, h.heap_of_notMem _ ha]
    exact (or_iff_left fun hno ↦ ha hno.1).symm

/-! ## The effect of a batch -/

/-- The effect of a `handleRead` at the time `now`, with the events `es` and the timers `batch`. -/
structure BatchResult (q q' : TimerQueue D) (now : Timestamp) (es : List TimerEvent)
    (batch : List (ActiveTimer × Timestamp)) : Prop where
  trace : q'.trace = q.trace ++ es
  /-- The batch is the timers that are due, each once, in the order of their expirations. -/
  mem_batch : ∀ id w, (id, w) ∈ batch ↔ q.Scheduled id w ∧ w ≤ now
  batch_nodup : (batch.map Prod.fst).Nodup
  batch_ordered : batch.Pairwise fun x y ↦ x.2 ≤ y.2
  /-- Its callbacks are run, and no others. -/
  runs : rans es = batch.map Prod.fst
  /-- What is scheduled afterwards: timers that were not due and not cancelled, timers added and not
  cancelled since, and the repeating timers of the batch that were not cancelled. -/
  scheduled_iff : ∀ id w, q'.Scheduled id w ↔
    (q.Scheduled id w ∧ now < w ∧ .cancelled id ∉ es) ∨
    (∃ es₁ es₂, es = es₁ ++ .added id w :: es₂ ∧ .cancelled id ∉ es₂) ∨
    (∃ w₀ t, (id, w₀) ∈ batch ∧ q.heap (ofLex id).1 = some t ∧ t.repeats ∧ .cancelled id ∉ es ∧
      w = addTime now t.interval)
  active_iff : ∀ id, id ∈ q'.activeTimers ↔ ∃ w, q'.Scheduled id w
  /-- A one-shot timer of the batch and a cancelled one are in neither set. -/
  gone : ∀ id w₀ t, (id, w₀) ∈ batch → q.heap (ofLex id).1 = some t →
    (¬t.repeats ∨ .cancelled id ∈ es) → id ∉ q'.activeTimers ∧ ∀ w, ¬q'.Scheduled id w

section Stages

variable {now readAt : Timestamp} {callbacks : Entry → List (Call D)}
  {active : OrderedSet ActiveTimer} {q₃ : TimerQueue D}

variable (h : Stages q now readAt callbacks active q₂ q₃)
include h

/-- The callback phase runs the batch, and its effect is what the callbacks ask for. -/
theorem Stages.evolves :
    ∃ es, es = asked q.heap q.numCreated (phase callbacks (q.expired now)) ∧
      Evolves (addresses (q.expired now)) (q.opened now readAt active) q₂ es ∧
      rans es = (q.batch now).map Prod.fst ∧ (es.Pairwise Quiet ↔
        (q.expired now).Pairwise fun e e' ↦ q.nameOf e' ∉
          (callbacks e).filterMap Call.cancels) := by
  have hname : (q.opened now readAt active).Names (addresses (q.expired now)) q.nameOf := by
    intro e he
    obtain ⟨t, ht, -⟩ := h.opened_inv.idle_live _ (mem_append_right _ he)
    exact ⟨t, ht, nameOf_eq ht⟩
  obtain ⟨es, hes, hran, hquiet⟩ := runAll_phaseStep_evolves h.opened_inv hname h.along h.run
  rw [filterMap_started_phase, ← map_fst_batch] at hran
  rw [pairwise_phase_iff] at hquiet
  have htrace := runAll_phaseStep_trace h.opened_inv (fun _ _ ↦ rfl) h.along h.run
  exact ⟨es, append_cancel_left (hes.trace.symm.trans htrace), hes, hran, hquiet⟩

/-- What is scheduled after `reset`, in terms of the state before and the events. -/
theorem Stages.scheduled_iff (hinv : q.Inv [])
    (hes : Evolves (addresses (q.expired now)) (q.opened now readAt active) q₂ es) :
    q₃.Scheduled id w ↔ q₂.Scheduled id w ∨
      ∃ w₀ t, (id, w₀) ∈ q.batch now ∧ q.heap (ofLex id).1 = some t ∧ t.repeats ∧
        .cancelled id ∉ es ∧ w = addTime now t.interval := by
  have hcalled : ({ q₂ with callingExpiredTimers := false } : TimerQueue D).Inv
      (addresses (q.expired now)) := h.called_inv
  rw [h.resets.scheduled hcalled]
  refine or_congr_right ?_
  -- A timer of the batch is not touched by the phase, and a cancel of it is noted.
  have hnoted : ∀ t, (ofLex id).1 ∈ addresses (q.expired now) → q.heap (ofLex id).1 = some t →
      t.sequence = (ofLex id).2 → (id ∈ q₂.cancelingTimers ↔ .cancelled id ∈ es) := by
    intro t ha ht hseq
    have hmem := hes.canceling rfl _ ha t ht
    rw [hseq] at hmem
    exact hmem.trans (or_iff_right (notMem_empty _))
  constructor
  · rintro ⟨ha, t, ht, hseq, hrep, hnot, rfl⟩
    have ht' : q.heap (ofLex id).1 = some t := (hes.heap _ ha).symm.trans ht
    obtain ⟨w₀, hs, hle⟩ := (hinv.mem_addresses_expired ht').mp ha
    rw [hseq] at hs
    exact ⟨w₀, t, hinv.mem_batch.mpr ⟨hs, hle⟩, ht', hrep, fun hc ↦
      hnot ((hnoted t ha ht' hseq).mpr hc), rfl⟩
  · rintro ⟨w₀, t, hbatch, ht, hrep, hnot, rfl⟩
    obtain ⟨hs, hle⟩ := hinv.mem_batch.mp hbatch
    obtain ⟨t', ht', hseq⟩ := hs.2
    cases ht.symm.trans ht'
    have ha : (ofLex id).1 ∈ addresses (q.expired now) :=
      (hinv.mem_addresses_expired ht).mpr ⟨w₀, by rw [hseq]; exact hs, hle⟩
    exact ⟨ha, t, (hes.heap _ ha).trans ht, hseq, hrep, fun hc ↦
      hnot ((hnoted t ha ht hseq).mp hc), rfl⟩

theorem Stages.batchResult {b : Bool} {x armAt : Timestamp}
    (hinv : q.Inv []) :
    ∃ es, es = asked q.heap q.numCreated (phase callbacks (q.expired now)) ∧
      BatchResult q (armIf b q₃ x armAt) now es (q.batch now) ∧ (es.Pairwise Quiet ↔
      (q.expired now).Pairwise fun e e' ↦ q.nameOf e' ∉ (callbacks e).filterMap Call.cancels) := by
  obtain ⟨es, hasked, hes, hran, hquiet⟩ := h.evolves
  have harm : ∀ id w, (armIf b q₃ x armAt).Scheduled id w ↔ q₃.Scheduled id w := fun id w ↦
    scheduled_congr armIf_timers fun _ ↦ congrFun armIf_heap _
  have hactive : ∀ id, id ∈ (armIf b q₃ x armAt).activeTimers ↔
      ∃ w, (armIf b q₃ x armAt).Scheduled id w := by
    intro id
    rw [armIf_activeTimers, h.reset_inv.mem_active_iff]
    exact exists_congr fun w ↦ (harm id w).symm
  have hgone : ∀ id w₀ t, (id, w₀) ∈ q.batch now → q.heap (ofLex id).1 = some t →
      (¬t.repeats ∨ .cancelled id ∈ es) → ∀ w, ¬(armIf b q₃ x armAt).Scheduled id w := by
    intro id w₀ t hbatch ht hno w hs
    obtain ⟨hs₀, hle⟩ := hinv.mem_batch.mp hbatch
    rw [harm, h.scheduled_iff hinv hes] at hs
    -- a timer of the batch is out of the queue, and `reset` puts back repeating ones only
    rcases hs with hs | ⟨-, t', -, ht', hrep, hnot, -⟩
    · refine h.called_inv.not_scheduled_of_out ?_ hs
      exact mem_map.mpr ⟨entry w₀ (ofLex id).1, hinv.mem_expired.mpr ⟨hs₀.1, hle⟩, rfl⟩
    · cases ht.symm.trans ht'
      exact hno.elim (· hrep) hnot
  refine ⟨es, hasked, ⟨?_, fun id w ↦ hinv.mem_batch, hinv.batch_nodup now, q.batch_ordered now,
    hran, ?_, hactive, ?_⟩, hquiet⟩
  · rw [armIf_trace, h.resets.frame]
    exact hes.trace
  · intro id w
    rw [harm, h.scheduled_iff hinv hes, hes.scheduled, hinv.scheduled_opened, or_assoc, and_assoc]
    rfl
  · intro id w₀ t hbatch ht hno
    have hnot := hgone id w₀ t hbatch ht hno
    refine ⟨fun hact ↦ ?_, hnot⟩
    obtain ⟨w, hs⟩ := (hactive id).mp hact
    exact hnot w hs

end Stages

/-- **The batch of a `handleRead`.** After any lawful run, and for any calls of the callbacks, a
`handleRead` goes through. It runs exactly the timers that are due, once each and in the order of
their expirations, and leaves the timers that `BatchResult` describes by what the calls of the
callbacks ask for. -/
theorem handleRead_batch (acts : List (Act D)) (now readAt armAt : Timestamp)
    (callbacks : Entry → List (Call D))
    (hacts : Along step LawfulAct (new : TimerQueue D)
      (acts ++ [.handleRead now readAt armAt callbacks])) :
    ∃ q q' : TimerQueue D, runAll step new acts = .ok q ∧
      q.handleRead now readAt armAt callbacks = .ok q' ∧
      BatchResult q q' now (asked q.heap q.numCreated (phase callbacks (q.expired now)))
        (q.batch now) := by
  obtain ⟨q, hrun, hinv⟩ := run_inv (along_of_append hacts)
  obtain ⟨active, q₂, q₃, hstages, hok⟩ := handleRead_spec hinv (along_append hacts hrun).1
  obtain ⟨_, rfl, hresult, -⟩ := hstages.batchResult hinv
  exact ⟨q, _, hrun, hok, hresult⟩

/-- Both timers are run. The one-shot timer is cancelled and gone, the repeating one is due again
half a second later, and the third timer has come and gone. -/
theorem handleRead_batch_cancelSiblings :
    ∃ q q' : TimerQueue ℚ, runAll step new (twoTimers.map .call) = .ok q ∧
      q.handleRead 1000 1000 1001 cancelSiblings = .ok q' ∧
      q.batch 1000 = [(activeTimer 16 2, 900), (activeTimer 8 1, 1000)] ∧
      asked q.heap q.numCreated (phase cancelSiblings (q.expired 1000)) =
        [.ran (activeTimer 16 2), .cancelled (activeTimer 8 1), .added (activeTimer 24 3) 0,
          .ran (activeTimer 8 1), .cancelled (activeTimer 24 3)] ∧
      q'.timers.toList = [entry 501000 16] ∧ BatchResult q q' 1000
        (asked q.heap q.numCreated (phase cancelSiblings (q.expired 1000))) (q.batch 1000) := by
  obtain ⟨q, q', hq, hq', hresult⟩ := handleRead_batch (twoTimers.map .call) 1000 1000 1001
    cancelSiblings (by decide +kernel)
  have hbatch : (runAll step new (twoTimers.map .call)).map (fun q : TimerQueue ℚ ↦ q.batch 1000) =
      .ok [(activeTimer 16 2, 900), (activeTimer 8 1, 1000)] := by decide +kernel
  have hvalue : (runAll step new (twoTimers.map .call) >>= fun q ↦
      (q.handleRead 1000 1000 1001 cancelSiblings).map fun q' ↦
        (asked q.heap q.numCreated (phase cancelSiblings (q.expired 1000)), q'.timers.toList)) =
      .ok ([.ran (activeTimer 16 2), .cancelled (activeTimer 8 1), .added (activeTimer 24 3) 0,
        .ran (activeTimer 8 1), .cancelled (activeTimer 24 3)], [entry 501000 16]) := by
    decide +kernel
  rw [hq, Except.map, Except.ok.injEq] at hbatch
  rw [hq, ok_bind, hq', Except.map, Except.ok.injEq, Prod.mk.injEq] at hvalue
  exact ⟨q, q', hq, hq', hbatch, hvalue.1, hvalue.2, hresult⟩

end TimerQueue

end Fishnet
