import Fishnet.Timer.TimerQueue

/-!
# The two indices agree

A live `Timer` is either *active*, found in both sets of the queue, or *idle*, found in neither: it
waits for its `addTimerInLoop`, or it belongs to the batch that `handleRead` is working on. The
invariant `Indexed` says this of the heap, the two sets and the list of idle timers.

Every function of the queue moves timers between the three conditions free, idle and active, and
there is one rule for each move.

## Main definitions

* `Indexed`: the invariant.

## Main results

* `Indexed.alloc`, `Indexed.free`: between free and idle, at construction and `delete`.
* `Indexed.activate`, `Indexed.deactivate`: between idle and active, under both keys at once.
* `Indexed.modify`: an idle timer may be restarted.
-/

namespace Fishnet

open Function List OrderedSet

theorem entry_inj {w w' : Timestamp} {a a' : ℕ} : entry w a = entry w' a' ↔ w = w' ∧ a = a' := by
  rw [entry, entry, EmbeddingLike.apply_eq_iff_eq, Prod.mk.injEq]

theorem activeTimer_inj {a a' : ℕ} {n n' : ℤ} :
    activeTimer a n = activeTimer a' n' ↔ a = a' ∧ n = n' := by
  rw [activeTimer, activeTimer, EmbeddingLike.apply_eq_iff_eq, Prod.mk.injEq]

/-- Below the sentry are the timers with expiration at most `now`. -/
theorem entry_lt_sentry {w now : Timestamp} {a : ℕ} (ha : a < uintptrMax) :
    entry w a < TimerQueue.sentry now ↔ w ≤ now := by
  rw [TimerQueue.sentry, entry, entry, Prod.Lex.toLex_lt_toLex]
  constructor
  · rintro (h | ⟨h, -⟩)
    · exact le_of_lt h
    · exact le_of_eq h
  · intro h
    rcases lt_or_eq_of_le h with h | h
    · exact Or.inl h
    · exact Or.inr ⟨h, ha⟩

variable {D : Type}

/-! ## The invariant -/

/-- The two sets index the live timers that are not idle. -/
structure Indexed (heap : ℕ → Option (Timer D)) (timers : OrderedSet Entry)
    (active : OrderedSet ActiveTimer) (idle : List ℕ) : Prop where
  timers_iff : ∀ w a, entry w a ∈ timers ↔
    ∃ t, heap a = some t ∧ t.expiration = w ∧ activeTimer a t.sequence ∈ active
  active_live : ∀ a n, activeTimer a n ∈ active → ∃ t, heap a = some t ∧ t.sequence = n
  size_eq : timers.size = active.size
  idle_live : ∀ a ∈ idle, ∃ t, heap a = some t ∧ activeTimer a t.sequence ∉ active
  idle_nodup : idle.Nodup
  bounded : ∀ a t, heap a = some t → a < uintptrMax

namespace Indexed

variable {heap : ℕ → Option (Timer D)} {timers : OrderedSet Entry} {active : OrderedSet ActiveTimer}
  {idle idle' : List ℕ} {a : ℕ} {t t' : Timer D}

theorem perm (h : Indexed heap timers active idle) (hp : idle.Perm idle') :
    Indexed heap timers active idle' where
  timers_iff := h.timers_iff
  active_live := h.active_live
  size_eq := h.size_eq
  idle_live b hb := h.idle_live b (hp.mem_iff.mpr hb)
  idle_nodup := hp.nodup_iff.mp h.idle_nodup
  bounded := h.bounded

/-- A timer is in `activeTimers_` under its own sequence number only. -/
theorem ne_of_active (h : Indexed heap timers active idle) (ha : a ∈ idle) {b : ℕ} {n : ℤ}
    (hb : activeTimer b n ∈ active) : b ≠ a := by
  rintro rfl
  obtain ⟨t, ht, rfl⟩ := h.active_live b n hb
  obtain ⟨t', ht', hno⟩ := h.idle_live b ha
  rw [ht, Option.some_inj] at ht'
  exact hno (ht' ▸ hb)

/-- The rule behind all changes of the heap: they concern one timer that is not active. -/
theorem active_update (hlive : ∀ b n, activeTimer b n ∈ active → ∃ t, heap b = some t ∧
    t.sequence = n)
    (hiff : ∀ w b, entry w b ∈ timers ↔
      ∃ t, heap b = some t ∧ t.expiration = w ∧ activeTimer b t.sequence ∈ active)
    {o : Option (Timer D)} (hne : ∀ b n, activeTimer b n ∈ active → b ≠ a) :
    (∀ w b, entry w b ∈ timers ↔ ∃ t, update heap a o b = some t ∧ t.expiration = w ∧
      activeTimer b t.sequence ∈ active) ∧
    ∀ b n, activeTimer b n ∈ active → ∃ t, update heap a o b = some t ∧
      t.sequence = n := by
  constructor
  · intro w b
    rw [hiff]
    constructor
    · rintro ⟨u, hu, hw, hact⟩
      exact ⟨u, by rw [update_of_ne (hne _ _ hact), hu], hw, hact⟩
    · rintro ⟨u, hu, hw, hact⟩
      rw [update_of_ne (hne _ _ hact)] at hu
      exact ⟨u, hu, hw, hact⟩
  · intro b n hact
    rw [update_of_ne (hne _ _ hact)]
    exact hlive b n hact

/-- From free to idle: a timer is constructed. -/
theorem alloc (h : Indexed heap timers active idle) (ha : heap a = none) (hlt : a < uintptrMax) :
    Indexed (update heap a (some t)) timers active (a :: idle) := by
  have hne : ∀ b n, activeTimer b n ∈ active → b ≠ a := by
    rintro b n hb rfl
    obtain ⟨u, hu, -⟩ := h.active_live b n hb
    rw [ha] at hu
    cases hu
  have hidle : ∀ b ∈ idle, b ≠ a := by
    rintro b hb rfl
    obtain ⟨u, hu, -⟩ := h.idle_live b hb
    rw [ha] at hu
    cases hu
  obtain ⟨hiff, hlive⟩ := active_update h.active_live h.timers_iff hne
  refine ⟨hiff, hlive, h.size_eq, ?_,
    nodup_cons.mpr ⟨fun hmem ↦ hidle a hmem rfl, h.idle_nodup⟩, ?_⟩
  · intro b hb
    rcases mem_cons.mp hb with rfl | hb
    · exact ⟨t, update_self .., fun hact ↦ hne _ _ hact rfl⟩
    · rw [update_of_ne (hidle b hb)]
      exact h.idle_live b hb
  · intro b u hu
    rcases eq_or_ne b a with rfl | hb
    · exact hlt
    · exact h.bounded b u (by rwa [update_of_ne hb] at hu)

/-- From idle to free: a timer is deleted. -/
theorem free (h : Indexed heap timers active (a :: idle)) :
    Indexed (update heap a none) timers active idle := by
  obtain ⟨hnot, hnodup⟩ := nodup_cons.mp h.idle_nodup
  obtain ⟨hiff, hlive⟩ := active_update h.active_live h.timers_iff
    fun b n ↦ h.ne_of_active mem_cons_self
  refine ⟨hiff, hlive, h.size_eq, fun b hb ↦ ?_, hnodup, fun b u hu ↦ ?_⟩
  · rw [update_of_ne (ne_of_mem_of_not_mem hb hnot)]
    exact h.idle_live b (mem_cons_of_mem _ hb)
  · rcases eq_or_ne b a with rfl | hb
    · rw [update_self] at hu
      cases hu
    · exact h.bounded b u (by rwa [update_of_ne hb] at hu)

/-- An idle timer may change its expiration: it is under no key. -/
theorem modify (h : Indexed heap timers active (a :: idle)) (ht : heap a = some t) :
    Indexed (update heap a (some t')) timers active (a :: idle) := by
  have halloc := h.free.alloc (t := t') (update_self ..) (h.bounded a t ht)
  rwa [update_idem] at halloc

theorem notMem_of_idle (h : Indexed heap timers active idle) (ha : a ∈ idle) :
    (∀ w, entry w a ∉ timers) ∧ ∀ n, activeTimer a n ∉ active := by
  constructor
  · intro w hw
    obtain ⟨u, -, -, hact⟩ := (h.timers_iff w a).mp hw
    exact h.ne_of_active ha hact rfl
  · intro n hact
    exact h.ne_of_active ha hact rfl

/-- From idle to active: a timer is entered under both keys. -/
theorem activate (h : Indexed heap timers active (a :: idle)) (ht : heap a = some t) :
    Indexed heap (timers.insert (entry t.expiration a)) (active.insert (activeTimer a t.sequence))
      idle := by
  obtain ⟨hnot, hnodup⟩ := nodup_cons.mp h.idle_nodup
  obtain ⟨hntimers, hnactive⟩ := h.notMem_of_idle mem_cons_self
  refine ⟨fun w b ↦ ?_, fun b n hb ↦ ?_, ?_, fun b hb ↦ ?_, hnodup, h.bounded⟩
  · rw [mem_insert, entry_inj, h.timers_iff]
    constructor
    · rintro (⟨rfl, rfl⟩ | ⟨u, hu, hw, hact⟩)
      · exact ⟨t, ht, rfl, mem_insert.mpr (Or.inl rfl)⟩
      · exact ⟨u, hu, hw, mem_insert.mpr (Or.inr hact)⟩
    · rintro ⟨u, hu, hw, hact⟩
      rw [mem_insert, activeTimer_inj] at hact
      rcases hact with ⟨rfl, -⟩ | hact
      · rw [ht, Option.some_inj] at hu
        exact Or.inl ⟨hu ▸ hw.symm, rfl⟩
      · exact Or.inr ⟨u, hu, hw, hact⟩
  · rw [mem_insert, activeTimer_inj] at hb
    rcases hb with ⟨rfl, rfl⟩ | hb
    · exact ⟨t, ht, rfl⟩
    · exact h.active_live b n hb
  · rw [size_insert (hntimers _), size_insert (hnactive _), h.size_eq]
  · obtain ⟨u, hu, hno⟩ := h.idle_live b (mem_cons_of_mem _ hb)
    refine ⟨u, hu, fun hact ↦ ?_⟩
    rw [mem_insert, activeTimer_inj] at hact
    rcases hact with ⟨rfl, -⟩ | hact
    · exact hnot hb
    · exact hno hact

/-- From active to idle: a timer is taken out under both keys. -/
theorem deactivate (h : Indexed heap timers active idle) (ht : heap a = some t)
    (hact : activeTimer a t.sequence ∈ active) :
    Indexed heap (timers.erase (entry t.expiration a)) (active.erase (activeTimer a t.sequence))
      (a :: idle) := by
  have hmem : entry t.expiration a ∈ timers := (h.timers_iff _ _).mpr ⟨t, ht, rfl, hact⟩
  refine ⟨fun w b ↦ ?_, fun b n hb ↦ ?_, ?_, fun b hb ↦ ?_,
    nodup_cons.mpr ⟨fun ha ↦ ?_, h.idle_nodup⟩, h.bounded⟩
  · rw [mem_erase, h.timers_iff]
    constructor
    · rintro ⟨hne, u, hu, rfl, hb⟩
      refine ⟨u, hu, rfl, mem_erase.mpr ⟨fun he ↦ hne ?_, hb⟩⟩
      obtain ⟨rfl, -⟩ := activeTimer_inj.mp he
      rw [ht, Option.some_inj] at hu
      rw [hu]
    · rintro ⟨u, hu, hw, hb⟩
      rw [mem_erase] at hb
      refine ⟨fun he ↦ hb.1 ?_, u, hu, hw, hb.2⟩
      obtain ⟨-, rfl⟩ := entry_inj.mp he
      rw [ht, Option.some_inj] at hu
      rw [hu]
  · exact h.active_live b n (mem_erase.mp hb).2
  · have h₁ := size_erase hmem
    have h₂ := size_erase hact
    have h₃ := h.size_eq
    omega
  · rcases mem_cons.mp hb with rfl | hb
    · exact ⟨t, ht, fun he ↦ (mem_erase.mp he).1 rfl⟩
    · obtain ⟨u, hu, hno⟩ := h.idle_live b hb
      exact ⟨u, hu, fun he ↦ hno (mem_erase.mp he).2⟩
  · exact h.ne_of_active ha hact rfl

end Indexed

end Fishnet
