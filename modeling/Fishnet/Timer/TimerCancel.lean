import Fishnet.Timer.TimerBatch

/-!
# Cancelled timers do not run

A `cancel` in the loop thread acts at once. It takes a timer out that is waiting in the queue, and a
timer that is running it keeps from being restarted. There is one gap: `handleRead` takes all
expired timers out of the queue first and then runs them, and does not look at `cancelingTimers_` in
between. A timer that an earlier callback of the same batch has cancelled is run all the same.
Nothing else can go wrong (`cancelled_never_runs_iff`).

The events of a run say what happened in which order. A timer is *retired* when it was added and
then cancelled, and the runs looked for are those in which no retired timer is started.

## Main definitions

* `TimerEvent.Retired`, `TimerEvent.CancelsHold`: the property, on events.
* `TimerQueue.Fresh`: a timer is added once, under a number of its own.
* `TimerQueue.CancelsRun`: a callback does not cancel a timer that is still to be run in its batch.
-/

namespace Fishnet

open Function List

/-! ## Events -/

namespace TimerEvent

/-- The timers added, in order. -/
def addeds (es : List TimerEvent) : List ActiveTimer :=
  es.filterMap fun e ↦
    match e with
    | .added id _ => some id
    | _ => none

/-- The timer was added, and cancelled after that. -/
def Retired (es : List TimerEvent) (id : ActiveTimer) : Prop :=
  ∃ before after, es = before ++ .cancelled id :: after ∧ id ∈ addeds before

/-- No timer is started after it was added and cancelled. -/
def CancelsHold (es : List TimerEvent) : Prop :=
  ∀ before id after, es = before ++ .cancelled id :: after → id ∈ addeds before → .ran id ∉ after

variable {es es' : List TimerEvent} {id : ActiveTimer} {w : Timestamp}

theorem mem_addeds : id ∈ addeds es ↔ ∃ w, .added id w ∈ es := by
  rw [addeds, mem_filterMap]
  constructor
  · rintro ⟨e, he, heq⟩
    split at heq
    · rw [Option.some_inj.mp heq] at he
      exact ⟨_, he⟩
    · cases heq
  · rintro ⟨w, h⟩
    exact ⟨_, h, rfl⟩

theorem addeds_append : addeds (es ++ es') = addeds es ++ addeds es' := filterMap_append

theorem Adds.mem_addeds (h : Adds es id w) : id ∈ addeds es := by
  obtain ⟨es₁, es₂, rfl, -⟩ := h
  exact TimerEvent.mem_addeds.mpr ⟨w, mem_append_right _ mem_cons_self⟩

theorem append_eq_cancelled {before after : List TimerEvent}
    (h : es ++ es' = before ++ .cancelled id :: after) :
    (∃ mid, es = before ++ .cancelled id :: mid ∧ after = mid ++ es') ∨
      ∃ mid, before = es ++ mid ∧ es' = mid ++ .cancelled id :: after := by
  rcases append_eq_append_iff.mp h with ⟨mid, rfl, h'⟩ | ⟨mid, h', hrest⟩
  · exact Or.inr ⟨mid, rfl, h'⟩
  · cases mid with
    | nil => exact Or.inr ⟨[], by rw [h', append_nil, append_nil], hrest.symm⟩
    | cons e mid =>
      rw [cons_append, List.cons.injEq] at hrest
      obtain ⟨rfl, rfl⟩ := hrest
      exact Or.inl ⟨mid, h', rfl⟩

theorem Retired.append (h : Retired (es ++ es') id) :
    Retired es id ∨ ∃ before after, es' = before ++ .cancelled id :: after ∧
      id ∈ addeds (es ++ before) := by
  obtain ⟨before, after, heq, hadded⟩ := h
  rcases append_eq_cancelled heq with ⟨mid, rfl, -⟩ | ⟨mid, rfl, rfl⟩
  · exact Or.inl ⟨before, mid, rfl, hadded⟩
  · exact Or.inr ⟨mid, after, rfl, hadded⟩

theorem CancelsHold.append (h : CancelsHold es) (hretired : ∀ id, Retired es id → .ran id ∉ es')
    (hquiet : es'.Pairwise Quiet) : CancelsHold (es ++ es') := by
  intro before id after heq hadded
  rcases append_eq_cancelled heq with ⟨mid, rfl, rfl⟩ | ⟨mid, -, rfl⟩
  · rw [mem_append, not_or]
    exact ⟨h before id mid rfl hadded, hretired id ⟨before, mid, rfl, hadded⟩⟩
  · intro hran
    exact (pairwise_cons.mp (pairwise_append.mp hquiet).2.1).1 _ hran id rfl rfl

/-- Events that are not quiet cancel a timer and run it later. -/
theorem exists_of_not_quiet (h : ¬es.Pairwise Quiet) :
    ∃ before id after, es = before ++ .cancelled id :: after ∧ .ran id ∈ after := by
  induction es with
  | nil => exact absurd .nil h
  | cons e es ih =>
    rw [pairwise_cons, not_and_or] at h
    rcases h with h | h
    · simp only [Quiet, not_forall, not_not] at h
      obtain ⟨e', he', id, rfl, rfl⟩ := h
      exact ⟨[], id, es, rfl, he'⟩
    · obtain ⟨before, id, after, rfl, hran⟩ := ih h
      exact ⟨e :: before, id, after, rfl, hran⟩

end TimerEvent

open TimerEvent

namespace TimerQueue

variable {D : Type} {q q' : TimerQueue D} {out : List ℕ} {es : List TimerEvent} {id : ActiveTimer}
  {w now : Timestamp} {a : ℕ}

/-! ## A timer is added once -/

/-- Sequence numbers are not used twice, and a timer that waits for its `addTimerInLoop` has not
been added. -/
structure Fresh (q : TimerQueue D) : Prop where
  live : ∀ a t, q.heap a = some t → t.sequence ≤ q.numCreated
  created : ∀ id ∈ addeds q.trace, (ofLex id).2 ≤ q.numCreated
  nodup : (addeds q.trace).Nodup
  handed : ∀ a ∈ q.handedOver, ∀ t, q.heap a = some t → activeTimer a t.sequence ∉ addeds q.trace

/-- Steps that construct and add nothing: timers are deleted or restarted. -/
theorem Fresh.of_heap (h : Fresh q) (hnum : q'.numCreated = q.numCreated)
    (htrace : addeds q'.trace = addeds q.trace) (hhanded : q'.handedOver = q.handedOver)
    (hheap : ∀ a t', q'.heap a = some t' → ∃ t, q.heap a = some t ∧ t'.sequence = t.sequence) :
    Fresh q' where
  live a t' ht' := by
    obtain ⟨t, ht, hseq⟩ := hheap a t' ht'
    rw [hnum, hseq]
    exact h.live a t ht
  created := by rw [htrace, hnum]; exact h.created
  nodup := by rw [htrace]; exact h.nodup
  handed a ha t' ht' := by
    obtain ⟨t, ht, hseq⟩ := hheap a t' ht'
    rw [htrace, hseq]
    exact h.handed a (hhanded ▸ ha) t ht

theorem Fresh.emit (h : Fresh q) {e : TimerEvent} (he : ∀ id w, e ≠ .added id w) :
    Fresh (q.emit e) := by
  refine h.of_heap rfl ?_ rfl fun a t ht ↦ ⟨t, ht, rfl⟩
  have hnone : addeds [e] = [] := by
    cases e with
    | added id w => exact absurd rfl (he id w)
    | _ => rfl
  rw [TimerQueue.emit, addeds_append, hnone, append_nil]

theorem fresh_new : Fresh (new : TimerQueue D) where
  live _ _ h := by cases h
  created _ h := by cases h
  nodup := .nil
  handed _ h := by cases h

theorem Fresh.newTimer [Seconds D] (h : Fresh q) (hinv : q.Inv out) (hfree : q.heap a = none)
    (i : D) : Fresh (q.newTimer a w i) := by
  have hne : ∀ b ∈ q.handedOver, b ≠ a := by
    rintro b hb rfl
    obtain ⟨t, ht, -⟩ := hinv.idle_live b (mem_append_left _ hb)
    rw [hfree] at ht
    cases ht
  refine ⟨fun b t ht ↦ ?_, fun id hid ↦ ?_, h.nodup, fun b hb t ht ↦ ?_⟩
  · rcases eq_or_ne b a with rfl | hb
    · cases (update_self ..).symm.trans ht
      exact le_rfl
    · exact (h.live b t ((update_of_ne hb ..).symm.trans ht)).trans (Int.le_add_one le_rfl)
  · exact (h.created id hid).trans (Int.le_add_one le_rfl)
  · rcases mem_append.mp hb with hb | hb
    · exact h.handed b hb t ((update_of_ne (hne b hb) ..).symm.trans ht)
    · rw [mem_singleton.mp hb] at ht ⊢
      cases (update_self ..).symm.trans ht
      intro hadded
      exact absurd (h.created _ hadded) (Int.not_le.mpr (Int.lt_succ q.numCreated))

theorem Fresh.addTimer (h : Fresh q) (hinv : q.Inv out) (ha : a ∈ q.handedOver) {t : Timer D}
    (ht : q.heap a = some t) : Fresh (q.addTimer a t) := by
  have hnodup : q.handedOver.Nodup := (nodup_append.mp hinv.idle_nodup).1
  have htrace : addeds (q.addTimer a t).trace = addeds q.trace ++ [activeTimer a t.sequence] :=
    addeds_append
  refine ⟨h.live, fun id hid ↦ ?_, ?_, fun b hb u hu ↦ ?_⟩
  · rw [htrace, mem_append, mem_singleton] at hid
    rcases hid with hid | rfl
    · exact h.created id hid
    · exact h.live a t ht
  · rw [htrace]
    refine nodup_append.mpr ⟨h.nodup, nodup_singleton _, ?_⟩
    rintro x hx y hy rfl
    rw [mem_singleton.mp hy] at hx
    exact h.handed a ha t ht hx
  · obtain ⟨hba, hb⟩ := (hnodup.mem_erase_iff).mp hb
    rw [htrace, mem_append, mem_singleton, not_or, activeTimer_inj]
    exact ⟨h.handed b hb u hu, fun heq ↦ hba heq.1⟩

theorem Fresh.armIf (h : Fresh q) {b : Bool} : Fresh (armIf b q w now) := by
  refine h.of_heap armIf_numCreated (by rw [armIf_trace]) armIf_handedOver fun a t ht ↦ ⟨t, ?_, rfl⟩
  rwa [armIf_heap] at ht

theorem CallCase.fresh [Seconds D] {c : Call D} (hc : CallCase q c q') (hinv : q.Inv out)
    (h : Fresh q) : Fresh q' := by
  cases hc with
  | newTimer w i hfree hlt => exact h.newTimer hinv hfree i
  | addTimer now ha ht => exact (h.addTimer hinv ha ht).armIf
  | @removeTimer a t ht hact =>
    refine (h.emit (e := .cancelled _) fun _ _ he ↦ by cases he).of_heap rfl rfl rfl fun b u hu ↦ ?_
    rcases eq_or_ne b a with rfl | hb
    · cases (update_self ..).symm.trans hu
    · exact ⟨u, (update_of_ne hb ..).symm.trans hu, rfl⟩
  | noteCancel hid =>
    exact (h.emit (e := .cancelled _) fun _ _ he ↦ by cases he).of_heap rfl rfl rfl
      fun b u hu ↦ ⟨u, hu, rfl⟩

theorem PhaseCase.fresh [Seconds D] {p : PhaseStep D} (hp : PhaseCase out q p q') (hinv : q.Inv out)
    (h : Fresh q) : Fresh q' := by
  cases hp with
  | run he ht => exact h.emit fun _ _ he ↦ by cases he
  | call hc => exact hc.fresh hinv h

theorem Resets.fresh [Seconds D] {l : List ℕ} (hr : Resets now l q q') (h : Fresh q) :
    Fresh q' := by
  refine h.of_heap (by rw [hr.frame]) (by rw [hr.frame]) (by rw [hr.frame]) fun b u hu ↦ ?_
  by_cases hb : b ∈ l
  · obtain ⟨t, ht, hheap⟩ := hr.heap_of_mem b hb
    rw [hheap] at hu
    split_ifs at hu
    cases hu
    exact ⟨t, ht, restart_sequence t now⟩
  · exact ⟨u, (hr.heap_of_notMem b hb).symm.trans hu, rfl⟩

/-! ## The effect of a step on events -/

/-- In a batch, no callback cancels a timer that is still to be run. -/
def CancelsRun (q : TimerQueue D) : Act D → Prop
  | .call _ => True
  | .handleRead now _ _ callbacks =>
    (q.expired now).Pairwise fun e e' ↦ q.nameOf e' ∉ (callbacks e).filterMap Call.cancels

instance (q : TimerQueue D) : ∀ act, Decidable (q.CancelsRun act)
  | .call _ => inferInstanceAs (Decidable True)
  | .handleRead now _ _ callbacks => inferInstanceAs (Decidable ((q.expired now).Pairwise
      fun e e' ↦ q.nameOf e' ∉ (callbacks e).filterMap Call.cancels))

/-- What a step does, in terms of its events. -/
structure Effect (q : TimerQueue D) (act : Act D) (q' : TimerQueue D) (es : List TimerEvent) :
    Prop where
  trace : q'.trace = q.trace ++ es
  scheduled : ∀ id w, q'.Scheduled id w →
    (∃ w', q.Scheduled id w') ∧ .cancelled id ∉ es ∨ Adds es id w
  runs : ∀ id, .ran id ∈ es → ∃ w, q.Scheduled id w
  quiet : es.Pairwise Quiet ↔ q.CancelsRun act

variable [Seconds D]

theorem CallCase.effect {c : Call D} (hc : CallCase q c q') (hinv : q.Inv []) :
    ∃ es, Effect q (.call c) q' es := by
  obtain ⟨es, hes, hran, -⟩ := hc.evolves hinv
  have hno (id : ActiveTimer) : .ran id ∉ es := by
    rw [← mem_rans, hran]
    exact not_mem_nil
  refine ⟨es, hes.trace, fun id w hs ↦ ?_, fun id h ↦ absurd h (hno id), iff_of_true ?_ trivial⟩
  · exact ((hes.scheduled id w).mp hs).imp_left fun h ↦ ⟨⟨w, h.1⟩, h.2⟩
  · refine pairwise_of_forall_mem_list ?_
    rintro e - _ he' id - rfl
    exact hno id he'

theorem BatchResult.effect {readAt armAt : Timestamp} {callbacks : Entry → List (Call D)}
    (h : BatchResult q q' now es (q.batch now)) (hquiet : es.Pairwise Quiet ↔
      (q.expired now).Pairwise fun e e' ↦ q.nameOf e' ∉ (callbacks e).filterMap Call.cancels) :
    Effect q (.handleRead now readAt armAt callbacks) q' es := by
  refine ⟨h.trace, fun id w hs ↦ ?_, fun id hran ↦ ?_, hquiet⟩
  · rcases (h.scheduled_iff id w).mp hs with ⟨hs, -, hno⟩ | hadds | ⟨w₀, -, hbatch, -, -, hno, -⟩
    · exact Or.inl ⟨⟨w, hs⟩, hno⟩
    · exact Or.inr hadds
    · exact Or.inl ⟨⟨w₀, ((h.mem_batch id w₀).mp hbatch).1⟩, hno⟩
  · rw [← mem_rans, h.runs] at hran
    obtain ⟨⟨id, w⟩, hbatch, rfl⟩ := mem_map.mp hran
    exact ⟨w, ((h.mem_batch id w).mp hbatch).1⟩

theorem Stages.fresh {readAt : Timestamp} {callbacks : Entry → List (Call D)}
    {active : OrderedSet ActiveTimer} {q₂ q₃ : TimerQueue D}
    (h : Stages q now readAt callbacks active q₂ q₃) (hfresh : Fresh q) : Fresh q₃ := by
  have hopened : Fresh (q.opened now readAt active) :=
    hfresh.of_heap rfl rfl rfl fun a t ht ↦ ⟨t, ht, rfl⟩
  have hphase : q₂.Inv (addresses (q.expired now)) ∧ Fresh q₂ := by
    refine runAll_induct (I := fun q₁ ↦ q₁.Inv (addresses (q.expired now)) ∧ Fresh q₁)
      (fun q₁ p q₁' hq₁ hp hstep ↦ ?_) ⟨h.opened_inv, hopened⟩ h.along h.run
    obtain ⟨q₁'', hok, hcase, hinv⟩ := phaseStep_cases hq₁.1 hp
    obtain rfl := Except.ok.inj (hok.symm.trans hstep)
    exact ⟨hinv, hcase.fresh hq₁.1 hq₁.2⟩
  refine h.resets.fresh (hphase.2.of_heap ?_ ?_ ?_ fun a t ht ↦ ⟨t, ht, rfl⟩)
  · rfl
  · rfl
  · rfl

theorem step_effect {act : Act D} (hinv : q.Inv []) (hfresh : Fresh q) (hl : q.LawfulAct act) :
    ∃ q' es, q.step act = .ok q' ∧ q'.Inv [] ∧ Fresh q' ∧ Effect q act q' es := by
  obtain ⟨q', hok, hinv'⟩ := step_inv hinv hl
  refine ⟨q', ?_⟩
  cases act with
  | call c =>
    have hcase := callCase_of_eq_ok hinv hl hok
    obtain ⟨es, heffect⟩ := hcase.effect hinv
    exact ⟨es, hok, hinv', hcase.fresh hinv hfresh, heffect⟩
  | handleRead now readAt armAt callbacks =>
    obtain ⟨active, q₂, q₃, hstages, hok'⟩ := handleRead_spec hinv hl
    obtain rfl := Except.ok.inj (hok'.symm.trans hok)
    obtain ⟨es, -, hresult, hquiet⟩ := hstages.batchResult hinv
    exact ⟨es, hok, hinv', (hstages.fresh hfresh).armIf, hresult.effect hquiet⟩

/-! ## Runs -/

/-- Between steps, a timer that was added and cancelled is out of the queue. -/
structure Tidy (q : TimerQueue D) : Prop where
  inv : q.Inv []
  fresh : Fresh q
  added : ∀ id w, q.Scheduled id w → id ∈ addeds q.trace
  retired : ∀ id w, Retired q.trace id → ¬q.Scheduled id w
  holds : CancelsHold q.trace

omit [Seconds D] in
theorem tidy_new : Tidy (new : TimerQueue D) where
  inv := new_inv
  fresh := fresh_new
  added _ _ h := absurd h.1 (OrderedSet.notMem_empty _)
  retired _ _ _ h := absurd h.1 (OrderedSet.notMem_empty _)
  holds _ _ _ h := absurd h.symm (append_ne_nil_of_right_ne_nil _ (cons_ne_nil _ _))

theorem not_adds_of_nodup {es₀ : List TimerEvent} (h : (addeds (es₀ ++ es)).Nodup)
    (hadded : id ∈ addeds es₀) : ¬Adds es id w := by
  intro hadds
  rw [addeds_append, nodup_append] at h
  exact h.2.2 id hadded id hadds.mem_addeds rfl

/-- A timer is not added again after it was cancelled. -/
theorem not_adds_of_retired {es₀ : List TimerEvent} (h : (addeds (es₀ ++ es)).Nodup)
    (hretired : Retired (es₀ ++ es) id) : ¬Adds es id w := by
  rcases hretired.append with ⟨before, after, rfl, hadded⟩ | ⟨before, after, rfl, hadded⟩
  · refine not_adds_of_nodup h ?_
    rw [addeds_append]
    exact mem_append_left _ hadded
  · rw [← append_assoc] at h
    intro hadds
    rcases adds_append.mp hadds with ⟨-, hno⟩ | hadds
    · exact hno mem_cons_self
    · exact not_adds_of_nodup h hadded hadds

omit [Seconds D] in
theorem Tidy.step {act : Act D} (h : Tidy q) (hinv : q'.Inv []) (hfresh : Fresh q')
    (heffect : Effect q act q' es) (hcancels : q.CancelsRun act) : Tidy q' := by
  refine ⟨hinv, hfresh, fun id w hs ↦ ?_, fun id w hretired hs ↦ ?_, ?_⟩
  · rw [heffect.trace, addeds_append, mem_append]
    rcases heffect.scheduled id w hs with ⟨⟨w', hs'⟩, -⟩ | hadds
    · exact Or.inl (h.added id w' hs')
    · exact Or.inr hadds.mem_addeds
  · have hnodup := hfresh.nodup
    rw [heffect.trace] at hretired hnodup
    rcases heffect.scheduled id w hs with ⟨⟨w', hs'⟩, hno⟩ | hadds
    · rcases hretired.append with hold | ⟨before, after, rfl, -⟩
      · exact h.retired id w' hold hs'
      · exact hno (mem_append_right _ mem_cons_self)
    · exact not_adds_of_retired hnodup hretired hadds
  · rw [heffect.trace]
    refine h.holds.append (fun id hretired hran ↦ ?_) (heffect.quiet.mpr hcancels)
    obtain ⟨w, hs⟩ := heffect.runs id hran
    exact h.retired id w hretired hs

omit [Seconds D] in
/-- A batch in which a callback cancels a timer still to be run runs that timer. -/
theorem Tidy.breaks {act : Act D} (h : Tidy q) (heffect : Effect q act q' es)
    (hcancels : ¬q.CancelsRun act) : ¬CancelsHold q'.trace := by
  intro hholds
  rw [heffect.trace] at hholds
  obtain ⟨before, id, after, rfl, hran⟩ := exists_of_not_quiet fun hquiet ↦
    hcancels (heffect.quiet.mp hquiet)
  obtain ⟨w, hs⟩ := heffect.runs id (mem_append_right _ (mem_cons_of_mem _ hran))
  refine hholds (q.trace ++ before) id after (by rw [append_assoc]) ?_ hran
  rw [addeds_append]
  exact mem_append_left _ (h.added id w hs)

/-- **Cancelled timers.** Along a lawful run, no timer is started after it was added and cancelled,
exactly if in every batch the callbacks cancel no timer that is still to be run in it. -/
theorem cancelled_never_runs_iff (acts : List (Act D))
    (hacts : Along step LawfulAct (new : TimerQueue D) acts) :
    (∀ pre, pre <+: acts → ∀ q, runAll step (new : TimerQueue D) pre = .ok q →
      ∀ before id after, q.trace = before ++ .cancelled id :: after → id ∈ addeds before →
        .ran id ∉ after) ↔
    Along step CancelsRun (new : TimerQueue D) acts := by
  refine along_iff_of_reached (I := Tidy) (fun q hq ↦ hq.holds)
    (fun q act q' hq hl hcancels hstep ↦ ?_)
    (fun q act hq hl hcancels ↦ ?_) tidy_new hacts
  · obtain ⟨q'', es, hok, hinv, hfresh, heffect⟩ := step_effect hq.inv hq.fresh hl
    obtain rfl := Except.ok.inj (hok.symm.trans hstep)
    exact hq.step hinv hfresh heffect hcancels
  · obtain ⟨q', es, hok, -, -, heffect⟩ := step_effect hq.inv hq.fresh hl
    exact ⟨q', hok, hq.breaks heffect hcancels⟩

/-- The callback of each timer cancels that timer and the one that ran before. -/
def cancelBehind (e : Entry) : List (Call ℚ) :=
  if (ofLex e).2 = 16 then [.cancelInLoop (activeTimer 16 2)]
  else [.cancelInLoop (activeTimer 16 2), .cancelInLoop (activeTimer 8 1)]

theorem cancelled_never_runs_cancelBehind :
    ∃ q : TimerQueue ℚ, runAll step new
      (twoTimers.map .call ++ [.handleRead 1000 1000 1001 cancelBehind]) =
        .ok q ∧
      ∀ before id after, q.trace = before ++ .cancelled id :: after → id ∈ addeds before →
        .ran id ∉ after := by
  have hlawful : Along step LawfulAct (new : TimerQueue ℚ)
      (twoTimers.map .call ++ [.handleRead 1000 1000 1001 cancelBehind]) := by
    decide +kernel
  obtain ⟨q, hrun, -⟩ := run_inv hlawful
  exact ⟨q, hrun, (cancelled_never_runs_iff _ hlawful).mpr (by decide +kernel) _
    (prefix_refl _) q hrun⟩

/-- Two timers expire together, and the callback of the first cancels the second, which is run next.
-/
theorem cancelled_runs_in_batch :
    ∃ q : TimerQueue ℚ,
      runAll step new (twoTimers.map .call ++ [.handleRead 1000 1000 1001 cancelSiblings]) = .ok q ∧
      ∃ before after, q.trace = before ++ .cancelled (activeTimer 8 1) :: after ∧
        activeTimer 8 1 ∈ addeds before ∧ .ran (activeTimer 8 1) ∈ after := by
  refine exists_ok_of_map TimerQueue.trace
    ([.added (activeTimer 8 1) 1000, .added (activeTimer 16 2) 900,
      .cancelled (activeTimer 0 0), .ran (activeTimer 16 2)] ++
      TimerEvent.cancelled (activeTimer 8 1) :: [.added (activeTimer 24 3) 0,
        .ran (activeTimer 8 1), .cancelled (activeTimer 24 3)]) (by decide +kernel)
    fun q _ htrace ↦ ?_
  exact ⟨_, _, htrace, by decide, by decide⟩

end TimerQueue

end Fishnet
