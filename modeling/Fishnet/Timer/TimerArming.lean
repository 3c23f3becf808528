import Fishnet.Timer.TimerSpec

/-!
# No timer is missed

The timerfd is armed when a timer becomes the earliest one and at the end of every `handleRead`, and
never on a cancel. A cancel only moves the earliest expiration up, so it leaves a timerfd that is
armed early enough. The one delicate place is the end of `reset`, which arms the timerfd only when
the earliest expiration is a valid timestamp, that is, positive.

`Covered S` says that the timerfd is armed early enough for every timer whose expiration is in `S`.
Between steps it holds with all timestamps for `S`. In the callback phase, when the timerfd has been
read and not been armed again, it holds for the timestamps that are not valid: every timer that is
left after `getExpired` is valid, and a timer added by a callback arms the timerfd if no earlier one
has. This is what `reset` needs in the case in which it does not arm.

## Main results

* `TimerQueue.Ticking.handleRead`: the invariant over a whole `handleRead`.
* `TimerQueue.timerfd_covers_earliest`: on every run the timerfd is armed for the earliest timer, up
  to the 100 microseconds that `howMuchTimeFromNow` adds.
-/

namespace Fishnet

open Function List OrderedSet

variable {D : Type}

/-! ## The timerfd -/

/-- The time from now is the time to the expiration, and at least 100 microseconds. -/
theorem timerfdSettime_howMuchTimeFromNow {w now : ℤ} (hw : |w| < 2 ^ 62) (hpos : 0 < now)
    (hnow : now < 2 ^ 62) :
    timerfdSettime now (howMuchTimeFromNow w now) = some (max w (now + 100)) := by
  obtain ⟨hlow, hhigh⟩ := abs_lt.mp hw
  have hsub : int64 (w - now) = w - now := int64_of_lt (by omega) (by omega)
  have hmicros : (if w - now < 100 then 100 else w - now) = max w (now + 100) - now := by
    split_ifs with h
    · rw [max_eq_right (by omega)]
      omega
    · rw [max_eq_left (by omega)]
  have hge : 100 ≤ max w (now + 100) - now := by
    have := le_max_right w (now + 100)
    omega
  rw [timerfdSettime, howMuchTimeFromNow]
  simp only [hsub, hmicros]
  generalize hm : max w (now + 100) - now = m at hge ⊢
  have htdiv : m.tdiv 1000000 = m / 1000000 := Int.tdiv_eq_ediv_of_nonneg (by omega)
  have htmod : m.tmod 1000000 = m % 1000000 := Int.tmod_eq_emod_of_nonneg (by omega)
  rw [htdiv, htmod, if_neg (by omega), Int.mul_ediv_cancel _ (by decide)]
  have hsum : now + m / 1000000 * 1000000 + m % 1000000 = max w (now + 100) := by
    rw [add_assoc, Int.ediv_mul_add_emod, ← hm, add_sub_cancel]
  exact congrArg some hsum

namespace TimerQueue

variable {q q' q₂ q₃ : TimerQueue D} {S : Set ℤ} {out : List ℕ} {a : ℕ} {w v limit : ℤ}

/-- The timerfd is armed for an instant no later than `w`, or than 100 microseconds after it was
armed. If that instant is past, the timerfd has expired and has not been read since. -/
def Armed (q : TimerQueue D) (w : ℤ) : Prop :=
  ∃ x T, q.timerfd = some x ∧ q.lastArming = some T ∧ x ≤ max w (T + 100)

theorem Armed.mono (h : q.Armed w) (hwv : w ≤ v) : q.Armed v := by
  obtain ⟨x, T, hx, hT, hle⟩ := h
  exact ⟨x, T, hx, hT, hle.trans (max_le_max_right _ hwv)⟩

theorem armed_resetTimerfd {now : ℤ} (hw : |w| < 2 ^ 62) (hpos : 0 < now) (hnow : now < 2 ^ 62) :
    (q.resetTimerfd w now).Armed w :=
  ⟨_, now, timerfdSettime_howMuchTimeFromNow hw hpos hnow, rfl, le_rfl⟩

/-- The timerfd is armed early enough for the timers with expirations in `S`. -/
def Covered (S : Set ℤ) (q : TimerQueue D) : Prop :=
  ∀ w a, entry w a ∈ q.timers → w ∈ S → q.Armed w

/-- One arming early enough for the earliest timer covers all. -/
theorem covered_of_le (harmed : q.Armed w) (hle : ∀ v a, entry v a ∈ q.timers → w ≤ v) :
    q.Covered S :=
  fun v a hmem _ ↦ harmed.mono (hle v a hmem)

/-- `insert` reports that the earliest timer changed when all the others are later. -/
theorem lt_of_earliestChanged (h : q.earliestChanged w) (hmem : entry v a ∈ q.timers) : w < v := by
  obtain ⟨e, he⟩ := exists_min? hmem
  rw [earliestChanged, he] at h
  have hlt : w < (ofLex e).1 := of_decide_eq_true h
  exact hlt.trans_le (Prod.Lex.monotone_fst _ _ ((min?_eq_some.mp he).2 _ hmem))

theorem exists_le_of_not_earliestChanged (h : ¬q.earliestChanged w) :
    ∃ v a, entry v a ∈ q.timers ∧ v ≤ w := by
  rw [earliestChanged] at h
  cases hmin : q.timers.min? with
  | none =>
    rw [hmin] at h
    exact absurd rfl h
  | some e =>
    rw [hmin] at h
    refine ⟨(ofLex e).1, (ofLex e).2, (min?_eq_some.mp hmin).1, not_lt.mp fun hlt ↦ h ?_⟩
    exact decide_eq_true hlt

theorem covered_addTimer {t : Timer D} {now : ℤ} (hS : IsLowerSet S) (h : q.Covered S)
    (hexp : |t.expiration| < 2 ^ 62) (hpos : 0 < now) (hnow : now < 2 ^ 62) :
    (armIf (q.earliestChanged t.expiration) (q.addTimer a t) t.expiration now).Covered S := by
  by_cases hc : q.earliestChanged t.expiration
  · rw [hc]
    refine covered_of_le (w := t.expiration) (armed_resetTimerfd hexp hpos hnow) fun v b hmem ↦ ?_
    rcases mem_insert.mp hmem with heq | hmem
    · exact (entry_inj.mp heq).1.ge
    · exact (lt_of_earliestChanged hc hmem).le
  · rw [Bool.not_eq_true] at hc
    rw [hc]
    intro v b hmem hv
    rcases mem_insert.mp hmem with heq | hmem
    · obtain ⟨u, c, hu, hle⟩ := exists_le_of_not_earliestChanged
        (by rw [hc]; exact Bool.false_ne_true)
      rw [(entry_inj.mp heq).1] at hv ⊢
      exact Armed.mono (h u c hu (hS hle hv)) hle
    · exact h v b hmem hv

/-! ## Timestamps that do not overflow -/

variable [Seconds D]

/-- A repeating timer restarted by the time `limit` expires before `2 ^ 62` microseconds. -/
def IntervalFits (limit : ℤ) (interval : D) : Prop :=
  Seconds.positive interval → 0 ≤ Seconds.toMicros interval ∧
    limit + Seconds.toMicros interval < 2 ^ 62

instance (limit : ℤ) (interval : D) : Decidable (IntervalFits limit interval) :=
  inferInstanceAs (Decidable (_ → _))

/-- Expirations are below `2 ^ 62` in absolute value, and the clock is positive and at most `limit`.
-/
def Call.Fits (limit : ℤ) : Call D → Prop
  | .newTimer _ expiration interval => |expiration| < 2 ^ 62 ∧ IntervalFits limit interval
  | .addTimerInLoop _ now => 0 < now ∧ now ≤ limit
  | .cancelInLoop _ => True

instance (limit : ℤ) : ∀ c : Call D, Decidable (c.Fits limit)
  | .newTimer _ expiration interval =>
    inferInstanceAs (Decidable (|expiration| < 2 ^ 62 ∧ IntervalFits limit interval))
  | .addTimerInLoop _ now => inferInstanceAs (Decidable (0 < now ∧ now ≤ limit))
  | .cancelInLoop _ => inferInstanceAs (Decidable True)

def Act.Fits (limit : ℤ) : Act D → Prop
  | .call c => c.Fits limit
  | .handleRead now _ armAt callbacks =>
    (0 < now ∧ now ≤ limit) ∧ (0 < armAt ∧ armAt ≤ limit) ∧ ∀ e, ∀ c ∈ callbacks e, c.Fits limit

/-- What the timestamps of a live timer satisfy. -/
structure TimerFits (limit : ℤ) (t : Timer D) : Prop where
  expiration : |t.expiration| < 2 ^ 62
  interval : t.repeats → 0 ≤ Seconds.toMicros t.interval ∧
    limit + Seconds.toMicros t.interval < 2 ^ 62

theorem TimerFits.addTime {t : Timer D} {now : ℤ} (h : TimerFits limit t) (hrep : t.repeats)
    (hpos : 0 < now) (hnow : now ≤ limit) :
    0 < addTime now t.interval ∧ addTime now t.interval < 2 ^ 62 := by
  obtain ⟨hnonneg, hlt⟩ := h.interval hrep
  have hsum : Fishnet.addTime now t.interval = now + Seconds.toMicros t.interval :=
    int64_of_lt (by omega) (by omega)
  rw [hsum]
  exact ⟨add_pos_of_pos_of_nonneg hpos hnonneg, by linarith⟩

theorem TimerFits.restart {t : Timer D} {now : ℤ} (h : TimerFits limit t) (hrep : t.repeats)
    (hpos : 0 < now) (hnow : now ≤ limit) : TimerFits limit (t.restart now) := by
  obtain ⟨hlow, hhigh⟩ := h.addTime hrep hpos hnow
  rw [Timer.restart, if_pos hrep]
  exact ⟨abs_lt.mpr ⟨by linarith, hhigh⟩, h.interval⟩

/-! ## The invariant -/

/-- The timestamps of all live timers fit, and the timerfd covers the timers with expirations in
`S`. -/
structure Ticking (limit : ℤ) (S : Set ℤ) (q : TimerQueue D) : Prop where
  fits : ∀ a t, q.heap a = some t → TimerFits limit t
  covered : q.Covered S

theorem CallCase.ticking {c : Call D} (hlimit : limit < 2 ^ 62) (hS : IsLowerSet S)
    (hc : CallCase q c q') (hfits : c.Fits limit) (h : q.Ticking limit S) : q'.Ticking limit S := by
  cases hc with
  | @newTimer a w i hfree hlt =>
    refine ⟨fun b t hb ↦ ?_, h.covered⟩
    rcases eq_or_ne b a with rfl | hne
    · cases (update_self ..).symm.trans hb
      exact ⟨hfits.1, hfits.2⟩
    · exact h.fits b t ((update_of_ne hne ..).symm.trans hb)
  | addTimer now ha ht =>
    refine ⟨fun b t hb ↦ h.fits b t (by rwa [armIf_heap] at hb), ?_⟩
    exact covered_addTimer hS h.covered (h.fits _ _ ht).expiration hfits.1 (hfits.2.trans_lt hlimit)
  | @removeTimer a _ ht hact =>
    refine ⟨fun b t hb ↦ ?_, fun w b hmem ↦ h.covered w b (mem_erase.mp hmem).2⟩
    rcases eq_or_ne b a with rfl | hne
    · cases (update_self ..).symm.trans hb
    · exact h.fits b t ((update_of_ne hne ..).symm.trans hb)
  | noteCancel hid => exact ⟨h.fits, h.covered⟩

/-- The steps of a callback phase whose calls fit. -/
def PhaseStep.Fits (limit : ℤ) : PhaseStep D → Prop
  | .run _ => True
  | .call c => c.Fits limit

theorem fits_of_mem_phase {callbacks : Entry → List (Call D)} {l : List Entry} {p : PhaseStep D}
    (h : ∀ e, ∀ c ∈ callbacks e, c.Fits limit) (hp : p ∈ phase callbacks l) : p.Fits limit := by
  obtain ⟨e, -, hmem⟩ := mem_flatMap.mp hp
  rcases mem_cons.mp hmem with rfl | hcall
  · trivial
  · obtain ⟨c, hc, rfl⟩ := mem_map.mp hcall
    exact h e c hc

theorem PhaseCase.ticking {p : PhaseStep D} (hlimit : limit < 2 ^ 62) (hS : IsLowerSet S)
    (hp : PhaseCase out q p q') (hfits : p.Fits limit) (h : q.Ticking limit S) :
    q'.Ticking limit S := by
  cases hp with
  | run he ht => exact ⟨h.fits, h.covered⟩
  | call hc => exact hc.ticking hlimit hS hfits h

theorem runAll_phaseStep_ticking {ps : List (PhaseStep D)} (hlimit : limit < 2 ^ 62)
    (hS : IsLowerSet S) (hinv : q.Inv out) (hps : Along phaseStep (InPhase out) q ps)
    (hfits : ∀ p ∈ ps, p.Fits limit) (hrun : runAll phaseStep q ps = .ok q')
    (h : q.Ticking limit S) : q'.Ticking limit S := by
  refine (runAll_induct (I := fun s ↦ s.Inv out ∧ s.Ticking limit S) (fun s p s' hs hp hok ↦ ?_)
    ⟨hinv, h⟩ (along_and_of_forall hfits hps) hrun).2
  obtain ⟨s'', hok', hcase, hinv'⟩ := phaseStep_cases hs.1 hp.2
  cases hok.symm.trans hok'
  exact ⟨hinv', hcase.ticking hlimit hS hp.1 hs.2⟩

/-! ## A whole `handleRead` -/

section Stages

variable {now readAt : ℤ} {callbacks : Entry → List (Call D)} {active : OrderedSet ActiveTimer}

/-- When the first callback starts, every timer in the queue is later than `now`, so there is none
with an invalid timestamp to cover. -/
theorem ticking_opened (readAt : ℤ) (active : OrderedSet ActiveTimer) (hinv : q.Inv [])
    (hpos : 0 < now) (h : q.Ticking limit S) :
    (q.opened now readAt active).Ticking limit (Set.Iic 0) := by
  refine ⟨h.fits, fun w a hmem hw ↦ absurd hw (not_le.mpr (hpos.trans ?_))⟩
  obtain ⟨hmem, hle⟩ := mem_notBelow.mp hmem
  obtain ⟨t, ht, -⟩ := (hinv.timers_iff _ _).mp hmem
  rw [← not_lt, entry_lt_sentry (hinv.bounded _ t ht), not_le] at hle
  exact hle

theorem Resets.fits (hpos : 0 < now) (hnow : now ≤ limit) (h : Resets now out q q')
    (hfits : ∀ a t, q.heap a = some t → TimerFits limit t) {t : Timer D}
    (ht : q'.heap a = some t) : TimerFits limit t := by
  by_cases ha : a ∈ out
  · obtain ⟨u, hu, hheap⟩ := h.heap_of_mem a ha
    rw [hheap] at ht
    split_ifs at ht with hrep
    cases ht
    exact (hfits a u hu).restart hrep.1 hpos hnow
  · rw [h.heap_of_notMem a ha] at ht
    exact hfits a t ht

/-- A timer that `reset` enters again has a valid expiration. -/
theorem Resets.mem_of_invalid (hpos : 0 < now) (hnow : now ≤ limit) (h : Resets now out q q')
    (hfits : ∀ a t, q.heap a = some t → TimerFits limit t) (hmem : entry w a ∈ q'.timers)
    (hw : w ≤ 0) : entry w a ∈ q.timers := by
  rcases (h.timers_iff w a).mp hmem with hmem | ⟨ha, t, ht, rfl⟩
  · exact hmem
  · obtain ⟨u, hu, hheap⟩ := h.heap_of_mem a ha
    rw [hheap] at ht
    split_ifs at ht with hrep
    cases ht
    rw [Timer.restart, if_pos hrep.1] at hw
    exact absurd ((hfits a u hu).addTime hrep.1 hpos hnow).1 (not_lt.mpr hw)

/-- At the end of `reset` the timerfd is armed for the earliest timer. If that has an invalid
timestamp, a callback added it, and the timerfd has been armed then. -/
theorem Resets.covered {armAt : ℤ} (hlimit : limit < 2 ^ 62) (hnow : 0 < now ∧ now ≤ limit)
    (harm : 0 < armAt ∧ armAt ≤ limit) (hinv : q'.Inv []) (h : Resets now out q q')
    (hticking : q.Ticking limit (Set.Iic 0)) :
    (armIf (decide (0 < q'.earliest)) q' q'.earliest armAt).Covered Set.univ := by
  cases hmin : q'.timers.min? with
  | none =>
    intro w a hmem
    rw [armIf_timers] at hmem
    exact absurd hmem (min?_eq_none.mp hmin _)
  | some e =>
    obtain ⟨hmem, hle⟩ := min?_eq_some.mp hmin
    have hearliest : q'.earliest = (ofLex e).1 := by
      rw [earliest, hmin]
    have hfirst : ∀ v a, entry v a ∈ q'.timers → (ofLex e).1 ≤ v := fun v a hv ↦
      Prod.Lex.monotone_fst _ _ (hle _ hv)
    obtain ⟨t, ht, hexp, -⟩ := (hinv.timers_iff (ofLex e).1 (ofLex e).2).mp hmem
    have hfit := (h.fits hnow.1 hnow.2 hticking.fits ht).expiration
    rw [hexp] at hfit
    refine covered_of_le (w := (ofLex e).1) ?_ fun v a hv ↦ hfirst v a (by rwa [armIf_timers] at hv)
    rw [hearliest]
    by_cases hvalid : 0 < (ofLex e).1
    · rw [decide_eq_true hvalid]
      exact armed_resetTimerfd hfit harm.1 (harm.2.trans_lt hlimit)
    · rw [decide_eq_false hvalid]
      have hq : entry (ofLex e).1 (ofLex e).2 ∈ q.timers :=
        h.mem_of_invalid hnow.1 hnow.2 hticking.fits hmem (not_lt.mp hvalid)
      have harmed := hticking.covered _ _ hq (not_lt.mp hvalid)
      change q'.Armed _
      rw [h.frame]
      exact harmed

/-- **`handleRead` keeps the timers covered.** -/
theorem Ticking.handleRead {armAt : ℤ} (hlimit : limit < 2 ^ 62) (hinv : q.Inv [])
    (hstages : Stages q now readAt callbacks active q₂ q₃)
    (hfits : (Act.handleRead now readAt armAt callbacks).Fits limit) (h : q.Ticking limit S) :
    (armIf (decide (0 < q₃.earliest)) q₃ q₃.earliest armAt).Ticking limit Set.univ := by
  obtain ⟨hnow, harm, hcalls⟩ := hfits
  have hopened := ticking_opened readAt active hinv hnow.1 h
  have hcalled : q₂.Ticking limit (Set.Iic 0) := runAll_phaseStep_ticking hlimit (isLowerSet_Iic 0)
    hstages.opened_inv hstages.along (fun p hp ↦ fits_of_mem_phase hcalls hp) hstages.run hopened
  have hclosed : ({ q₂ with callingExpiredTimers := false } : TimerQueue D).Ticking limit
      (Set.Iic 0) := ⟨hcalled.fits, hcalled.covered⟩
  refine ⟨fun a t ht ↦ ?_, hstages.resets.covered hlimit hnow harm hstages.reset_inv hclosed⟩
  rw [armIf_heap] at ht
  exact hstages.resets.fits hnow.1 hnow.2 hclosed.fits ht

end Stages

/-! ## Runs -/

theorem step_ticking {act : Act D} (hlimit : limit < 2 ^ 62) (hinv : q.Inv [])
    (hlawful : q.LawfulAct act) (hfits : act.Fits limit) (h : q.Ticking limit Set.univ) :
    ∃ q', q.step act = .ok q' ∧ q'.Inv [] ∧ q'.Ticking limit Set.univ := by
  obtain ⟨q', hok, hinv'⟩ := step_inv hinv hlawful
  refine ⟨q', hok, hinv', ?_⟩
  cases act with
  | call c =>
    have hcase := callCase_of_eq_ok hinv hlawful hok
    exact hcase.ticking hlimit isLowerSet_univ hfits h
  | handleRead now readAt armAt callbacks =>
    obtain ⟨active, q₂, q₃, hstages, hok'⟩ := handleRead_spec hinv hlawful
    cases hok.symm.trans hok'
    exact h.handleRead hlimit hinv hstages hfits

theorem new_ticking : (new : TimerQueue D).Ticking limit Set.univ where
  fits a t h := by cases h
  covered w a h := absurd h (notMem_empty _)

/-- **No timer is missed.** In every state between steps of a lawful run whose timestamps fit, the
timerfd is armed for an instant no later than the earliest expiration in `timers_`, or than 100
microseconds after it was armed last. -/
theorem timerfd_covers_earliest (limit : ℤ) (acts : List (Act D)) (hlimit : limit < 2 ^ 62)
    (hacts : Along step LawfulAct (new : TimerQueue D) acts)
    (hfits : ∀ act ∈ acts, act.Fits limit) :
    ∃ q : TimerQueue D, runAll step new acts = .ok q ∧
      ∀ e, q.timers.min? = some e →
        ∃ x T, q.timerfd = some x ∧ q.lastArming = some T ∧ x ≤ max (ofLex e).1 (T + 100) := by
  obtain ⟨q, hrun, -, hticking⟩ := runAll_total
    (I := fun s ↦ s.Inv [] ∧ s.Ticking limit Set.univ)
    (fun s act hs hact ↦ step_ticking hlimit hs.1 hact.2 hact.1 hs.2)
    ⟨new_inv, new_ticking⟩ (along_and_of_forall hfits hacts)
  refine ⟨q, hrun, fun e he ↦ ?_⟩
  exact hticking.covered (ofLex e).1 (ofLex e).2 (min?_eq_some.mp he).1 (Set.mem_univ _)

/-- The callback of each timer adds one with an expiration before the epoch. -/
def addPast (e : Entry) : List (Call ℚ) := Call.addTimer ((ofLex e).2 + 16) (-5) 0 1000

/-- The batch of `twoTimers` leaves an earliest timer for which `reset` does not arm the timerfd. -/
theorem timerfd_covers_earliest_addPast :
    ∃ q : TimerQueue ℚ,
      runAll step new (twoTimers.map .call ++ [.handleRead 1000 1000 1001 addPast]) = .ok q ∧
      q.timers.toList = [entry (-5) 24, entry (-5) 32, entry 501000 16] ∧
      q.timerfd = some 1100 ∧ ∃ x T, q.timerfd = some x ∧ q.lastArming = some T ∧
        x ≤ max (-5) (T + 100) := by
  have hcalls : ∀ e, ∀ c ∈ addPast e, c.Fits 2000 := by
    intro e c hc
    fin_cases hc
    · exact ⟨by decide, by decide +kernel⟩
    · exact ⟨by decide, by decide⟩
  have hfits : ∀ act ∈ twoTimers.map .call ++ [.handleRead 1000 1000 1001 addPast],
      Act.Fits 2000 act := by
    intro act hact
    rcases mem_append.mp hact with hact | hact
    · obtain ⟨c, hc, rfl⟩ := mem_map.mp hact
      have htimers : ∀ c ∈ twoTimers, c.Fits 2000 := by decide +kernel
      exact htimers c hc
    · cases mem_singleton.mp hact
      exact ⟨⟨by decide, by decide⟩, ⟨by decide, by decide⟩, hcalls⟩
  obtain ⟨q, hq, hcovers⟩ := timerfd_covers_earliest 2000 _ (by decide) (by decide +kernel) hfits
  have hvalue : (runAll step new (twoTimers.map .call ++
      [.handleRead 1000 1000 1001 addPast])).map (fun q : TimerQueue ℚ ↦
        (q.timers.toList, q.timers.min?, q.timerfd)) =
      .ok ([entry (-5) 24, entry (-5) 32, entry 501000 16], some (entry (-5) 24), some 1100) := by
    decide +kernel
  rw [hq, Except.map, Except.ok.injEq, Prod.mk.injEq, Prod.mk.injEq] at hvalue
  exact ⟨q, hq, hvalue.1, hvalue.2.2, hcovers _ hvalue.2.1⟩

end TimerQueue

end Fishnet
