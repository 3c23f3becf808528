import Fishnet.Hlib.MemoryBlockingQueue
import Fishnet.Library.Packing

/-!
# A producer that is never woken

Producers of `MemoryBlockingQueue` wait on `not_full_` with elements of different sizes. Each
`dequeue` calls `notify_one` once. It may free room for several of them, or wake one whose element
still does not fit while that of another would. Either way a producer may stay blocked although
there is room (`Stranded`), and nobody is left to wake it.

## When it cannot happen

The accounting is assumed to be exact. No producer is ever stranded exactly if the elements with a
positive size that the program enqueues are such that their number decides whether they fit. For
then one element that leaves makes room for one producer, which is the one that is woken. The proof
keeps a set of producers that are on their way (`Coming`), large enough to fill the queue up.

In the other case the sizes admit one of two schedules (`exists_stranded_of_two_fit`,
`exists_stranded_of_wrong_wakeup`).

## Main results

* `MemoryBlockingQueue.no_stranded_iff`
-/

namespace Fishnet

open Function List CondVar

namespace MemoryBlockingQueue

open MemorySized

variable {κ T : Type}

/-- Only elements of `E` are enqueued. -/
def EnqueuesOnly (E : Set T) (as : List (Action κ T)) : Prop :=
  ∀ k x, .enqueue k x ∈ as → x ∈ E

variable [MemorySized T]

/-- A producer is blocked although its element fits. No notification is pending, and every other
thread is outside the queue or blocked as well. -/
def Stranded (s : MemoryBlockingQueue κ T) : Prop :=
  (∃ k x, s.call k = .enqueuing x ∧ k ∈ s.notFull.waiting ∧
    s.curMemorySize + memorySize x ≤ s.maxMemorySize) ∧
  s.notFull.notified = ∅ ∧ s.notEmpty.notified = ∅ ∧
  ∀ k, s.call k = .idle ∨ k ∈ s.notFull.waiting ∨ k ∈ s.notEmpty.waiting

/-- The elements of `E` that may have to wait. -/
def Sized (E : Set T) (max : ℕ) : Set T := {x | x ∈ E ∧ 0 < memorySize x ∧ memorySize x ≤ max}

variable {E : Set T} {max : ℕ} {s s' : MemoryBlockingQueue κ T}

/-! ## What holds of reachable states -/

/-- What holds of a thread, given whether it is blocked on `not_full_` and on `not_empty_`. -/
def CallOk (E : Set T) (max : ℕ) (onFull onEmpty : Prop) : QueueCall T → Prop
  | .idle => ¬onFull ∧ ¬onEmpty
  | .enqueuing x => x ∈ E ∧ memorySize x ≤ max ∧ (onFull → 0 < memorySize x) ∧ ¬onEmpty
  | .dequeuing => ¬onFull

theorem CallOk.mono {onFull onFull' onEmpty onEmpty' : Prop} {c : QueueCall T}
    (h : CallOk E max onFull onEmpty c) (hfull : onFull' → onFull) (hempty : onEmpty' → onEmpty) :
    CallOk E max onFull' onEmpty' c := by
  cases c with
  | idle => exact ⟨mt hfull h.1, mt hempty h.2⟩
  | enqueuing x => exact ⟨h.1, h.2.1, fun hf ↦ h.2.2.1 (hfull hf), mt hempty h.2.2.2⟩
  | dequeuing => exact mt hfull h

/-- What holds of the states that are reached. -/
structure Sound (E : Set T) (max : ℕ) (s : MemoryBlockingQueue κ T) : Prop where
  maxMemorySize : s.maxMemorySize = max
  accounted : s.Accounted
  lt : s.curMemorySize < sizeMod
  queued : ∀ x ∈ s.queue, x ∈ E ∧ memorySize x ≤ max
  calls : ∀ k, CallOk E max (k ∈ s.notFull.waiting) (k ∈ s.notEmpty.waiting) (s.call k)

theorem sound_new : (new max : MemoryBlockingQueue κ T).Sound E max where
  maxMemorySize := rfl
  accounted := accounted_new max
  lt := Nat.two_pow_pos 64
  queued x hx := by cases hx
  calls k := ⟨Finset.notMem_empty k, Finset.notMem_empty k⟩

section

variable (h : s.Sound E max)
include h

theorem Sound.hasRoom_of_le (hmax : max < sizeMod) {x : T}
    (hle : memoryOf s.queue + memorySize x ≤ max) : s.hasRoom x = true := by
  have hle' : s.curMemorySize + memorySize x ≤ s.maxMemorySize := by
    rwa [h.accounted.total, h.maxMemorySize]
  refine decide_eq_true ?_
  rwa [sizeAdd_of_lt (lt_of_le_of_lt hle' (h.maxMemorySize ▸ hmax))]

/-- A producer that has to wait has an element that does not fit. -/
theorem Sound.lt_of_hasRoom (hmax : max < sizeMod) {x : T}
    (hroom : s.hasRoom x = false) : max < memoryOf s.queue + memorySize x := by
  by_contra hle
  rw [h.hasRoom_of_le hmax (not_lt.mp hle)] at hroom
  cases hroom

theorem Sound.memoryOf_le : memoryOf s.queue ≤ max := by
  rw [← h.accounted.total, ← h.maxMemorySize]
  exact h.accounted.bounded

/-- A blocked producer has an element that takes memory. -/
theorem Sound.exists_of_mem_waiting {k : κ} (hk : k ∈ s.notFull.waiting) :
    ∃ x, s.call k = .enqueuing x ∧ x ∈ Sized E max := by
  have hok := h.calls k
  cases hcall : s.call k with
  | idle =>
    rw [hcall] at hok
    exact absurd hk hok.1
  | enqueuing x =>
    rw [hcall] at hok
    exact ⟨x, rfl, hok.1, hok.2.2.1 hk, hok.2.1⟩
  | dequeuing =>
    rw [hcall] at hok
    exact absurd hk hok

end

variable [DecidableEq κ] {a : Action κ T}

theorem Sound.of_mem_pushes (h : s.Sound E max) {x : T} (hx : x ∈ s.pushes a) :
    x ∈ E ∧ memorySize x ≤ max := by
  obtain ⟨k, -, -, hcall, -, -⟩ := exists_of_mem_pushes hx
  have hk := h.calls k
  rw [hcall] at hk
  exact ⟨hk.1, hk.2.1⟩

/-- One thread moves, and of the others none blocks. -/
theorem callOk_update {call : κ → QueueCall T} {full full' empty empty' : Finset κ}
    (h : ∀ j, CallOk E max (j ∈ full) (j ∈ empty) (call j)) (k : κ) {c : QueueCall T}
    (hfull : ∀ j, j ≠ k → j ∈ full' → j ∈ full) (hempty : ∀ j, j ≠ k → j ∈ empty' → j ∈ empty)
    (hk : CallOk E max (k ∈ full') (k ∈ empty') c) (j : κ) :
    CallOk E max (j ∈ full') (j ∈ empty') (update call k c j) := by
  by_cases hj : j = k
  · rw [hj, update_self]
    exact hk
  · rw [update_of_ne hj]
    exact (h j).mono (hfull j hj) (hempty j hj)

theorem Sound.step (h : s.Sound E max) (hmax : max < sizeMod) (hexact : s.Exact a)
    (ha : ∀ k x, a = .enqueue k x → x ∈ E) (hs : s.step a = .ok s') : s'.Sound E max := by
  obtain ⟨haccounted, hlt⟩ := h.accounted.step h.lt hexact hs
  cases step_cases hs with
  | refuse k x hlarge => exact ⟨h.maxMemorySize, haccounted, hlt, h.queued, h.calls⟩
  | enter k x hidle hle =>
    have hk := h.calls k
    rw [hidle] at hk
    have hx : memorySize x ≤ max := h.maxMemorySize ▸ hle
    exact ⟨h.maxMemorySize, haccounted, hlt, h.queued, callOk_update h.calls k (fun _ _ ↦ id)
      (fun _ _ ↦ id) ⟨ha k x rfl, hx, fun hf ↦ absurd hf hk.1, hk.2⟩⟩
  | push k x wakes hcall hroom hwakes =>
    have hk := h.calls k
    rw [hcall] at hk
    refine ⟨h.maxMemorySize, haccounted, hlt, fun y hy ↦ ?_, callOk_update h.calls k
      (fun j _ hj ↦ waiting_leave_subset hj)
      (fun j _ hj ↦ waiting_notifyOne_subset hj) ⟨fun hf ↦ ?_, fun he ↦ ?_⟩⟩
    · rcases mem_append.mp hy with hy | hy
      · exact h.queued y hy
      · exact mem_singleton.mp hy ▸ ⟨hk.1, hk.2.1⟩
    · exact (mem_waiting_leave.mp hf).1 rfl
    · exact hk.2.2.2 (waiting_notifyOne_subset he)
  | waitFull k x wakes hcall hroom =>
    have hk := h.calls k
    rw [hcall] at hk
    have hnot : max < memoryOf s.queue + memorySize x := h.lt_of_hasRoom hmax hroom
    have hle : memoryOf s.queue ≤ max := h.memoryOf_le
    have hcalls : ∀ j, CallOk E max (j ∈ (s.notFull.wait k).waiting) (j ∈ s.notEmpty.waiting)
        (update s.call k (.enqueuing x) j) :=
      callOk_update h.calls k
        (fun j hj hmem ↦ (mem_waiting_wait.mp hmem).resolve_left hj) (fun _ _ ↦ id)
        ⟨hk.1, hk.2.1, fun _ ↦ by omega, hk.2.2.2⟩
    rw [← hcall, update_eq_self] at hcalls
    exact ⟨h.maxMemorySize, haccounted, hlt, h.queued, hcalls⟩
  | dequeue k hidle =>
    have hk := h.calls k
    rw [hidle] at hk
    exact ⟨h.maxMemorySize, haccounted, hlt, h.queued, callOk_update h.calls k (fun _ _ ↦ id)
      (fun _ _ ↦ id) hk.1⟩
  | waitEmpty k wakes hcall hempty =>
    have hk := h.calls k
    rw [hcall] at hk
    have hcalls : ∀ j, CallOk E max (j ∈ s.notFull.waiting) (j ∈ (s.notEmpty.wait k).waiting)
        (update s.call k .dequeuing j) :=
      callOk_update h.calls k (fun _ _ ↦ id)
        (fun j hj hmem ↦ (mem_waiting_wait.mp hmem).resolve_left hj) hk
    rw [← hcall, update_eq_self] at hcalls
    exact ⟨h.maxMemorySize, haccounted, hlt, h.queued, hcalls⟩
  | pop k wakes x queue hcall hqueue hwakes =>
    have hk := h.calls k
    rw [hcall] at hk
    refine ⟨h.maxMemorySize, haccounted, hlt, fun y hy ↦ ?_, callOk_update h.calls k
      (fun j _ hj ↦ waiting_notifyOne_subset hj)
      (fun j _ hj ↦ waiting_leave_subset hj) ⟨fun hf ↦ ?_, fun he ↦ ?_⟩⟩
    · exact h.queued y (hqueue ▸ mem_cons_of_mem _ hy)
    · exact hk (waiting_notifyOne_subset hf)
    · exact (mem_waiting_leave.mp he).1 rfl

/-- A state that a program enqueuing elements of `E` can reach. -/
def Reached (E : Set T) (max : ℕ) (s : MemoryBlockingQueue κ T) : Prop :=
  ∃ as, EnqueuesOnly E as ∧ runAll step (new max) as = .ok s

theorem reached_new : Reached E max (new max : MemoryBlockingQueue κ T) := ⟨[], nofun, rfl⟩

theorem Reached.step (h : Reached E max s) (ha : ∀ k x, a = .enqueue k x → x ∈ E)
    (hs : s.step a = .ok s') : Reached E max s' := by
  obtain ⟨as, has, hrun⟩ := h
  refine ⟨as ++ [a], fun k x hx ↦ ?_, ?_⟩
  · rcases mem_append.mp hx with hx | hx
    · exact has k x hx
    · exact ha k x (mem_singleton.mp hx).symm
  · exact runAll_append_eq_ok.mpr ⟨s, hrun, runAll_cons_eq_ok.mpr ⟨s', hs, rfl⟩⟩

/-! ## Where lengths decide -/

/-- The elements that take memory. -/
def sized (l : List T) : List T := l.filter fun x ↦ 0 < memorySize x

theorem memoryOf_sized (l : List T) : memoryOf (sized l) = memoryOf l := by
  induction l with
  | nil => rfl
  | cons x l ih =>
    by_cases hx : 0 < memorySize x
    · rw [sized, filter_cons_of_pos (by simpa using hx), memoryOf_cons, memoryOf_cons]
      exact congrArg _ ih
    · rw [sized, filter_cons_of_neg (by simpa using hx), memoryOf_cons,
        Nat.eq_zero_of_not_pos hx, zero_add]
      exact ih

theorem length_sized_append_singleton {x : T} (l : List T) (hx : 0 < memorySize x) :
    (sized (l ++ [x])).length = (sized l).length + 1 := by
  rw [sized, filter_append, length_append, filter_singleton]
  simp [sized, hx]

theorem length_sized_le_cons (x : T) (l : List T) :
    (sized (x :: l)).length ≤ (sized l).length + 1 := by
  rw [sized, filter_cons]
  split_ifs with hx
  · exact le_rfl
  · exact Nat.le_succ _

omit [DecidableEq κ] in
theorem Sound.fits_iff (h : s.Sound E max) {K : ℕ}
    (hK : FitsByLength memorySize (Sized E max) max K) {x : T} (hx : x ∈ Sized E max) :
    memoryOf s.queue + memorySize x ≤ max ↔ (sized s.queue).length + 1 ≤ K := by
  have hmem : ∀ y ∈ sized s.queue ++ [x], y ∈ Sized E max := by
    intro y hy
    rcases mem_append.mp hy with hy | hy
    · obtain ⟨hqueue, hpos⟩ := mem_filter.mp hy
      exact ⟨(h.queued y hqueue).1, of_decide_eq_true hpos, (h.queued y hqueue).2⟩
    · exact mem_singleton.mp hy ▸ hx
  have hsum : ((sized s.queue ++ [x]).map memorySize).sum = memoryOf s.queue + memorySize x := by
    rw [← memoryOf_sized s.queue]
    exact (memoryOf_append _ _).trans (by simp)
  rw [← hsum, hK _ hmem, length_append, length_singleton]

/-- A producer that is on its way, with an element that takes memory. -/
def Coming (s : MemoryBlockingQueue κ T) (k : κ) : Prop :=
  k ∉ s.notFull.waiting ∧ ∃ x, s.call k = .enqueuing x ∧ 0 < memorySize x

/-- If anybody is blocked, the elements queued and the producers on their way are `K` together. -/
def Enough (K : ℕ) (s : MemoryBlockingQueue κ T) : Prop :=
  s.notFull.waiting.Nonempty →
    ∃ coming : Finset κ, (∀ k ∈ coming, s.Coming k) ∧ K ≤ (sized s.queue).length + coming.card

/-- A producer that is on its way and does not move stays on its way. -/
theorem Coming.of_update {j k : κ} {c : QueueCall T} (h : s.Coming j)
    (hk : ∀ x, s.call k ≠ .enqueuing x) (hcall : s'.call = update s.call k c)
    (hwaiting : s'.notFull.waiting ⊆ s.notFull.waiting) : s'.Coming j := by
  obtain ⟨hnot, x, hx, hpos⟩ := h
  have hne : j ≠ k := fun heq ↦ hk x (heq ▸ hx)
  refine ⟨fun hmem ↦ hnot (hwaiting hmem), x, ?_, hpos⟩
  rw [hcall, update_of_ne hne, hx]

/-- A producer enters. If it was counted, its element is counted now. -/
theorem le_length_sized_push {coming : Finset κ} (hcoming : ∀ j ∈ coming, s.Coming j) {k : κ}
    {x : T} (hcall : s.call k = .enqueuing x) :
    (sized s.queue).length + coming.card ≤
      (sized (s.queue ++ [x])).length + (coming.erase k).card := by
  by_cases hx : 0 < memorySize x
  · have herase : coming.card - 1 ≤ (coming.erase k).card := Finset.pred_card_le_card_erase
    have hlength := length_sized_append_singleton s.queue hx
    omega
  · have hk : k ∉ coming := by
      intro hk
      obtain ⟨-, y, hy, hpos⟩ := hcoming k hk
      rw [hcall] at hy
      cases hy
      exact hx hpos
    rw [Finset.erase_eq_of_notMem hk]
    refine Nat.add_le_add_right ?_ _
    exact (List.Sublist.filter _ (sublist_append_left _ _)).length_le

omit [DecidableEq κ] in
/-- A producer has to wait. Then the queue is full. -/
theorem Sound.le_length_sized (h : s.Sound E max) (hmax : max < sizeMod) {K : ℕ}
    (hK : FitsByLength memorySize (Sized E max) max K) {k : κ} {x : T}
    (hcall : s.call k = .enqueuing x) (hroom : s.hasRoom x = false) :
    K ≤ (sized s.queue).length := by
  have hk := h.calls k
  rw [hcall] at hk
  have hnot : max < memoryOf s.queue + memorySize x := h.lt_of_hasRoom hmax hroom
  have hle : memoryOf s.queue ≤ max := h.memoryOf_le
  have hx : x ∈ Sized E max := ⟨hk.1, by omega, hk.2.1⟩
  have hfull : ¬(sized s.queue).length + 1 ≤ K := by
    rw [← h.fits_iff hK hx]
    exact not_le.mpr hnot
  omega

theorem Sound.coming_of_notified (h : s.Sound E max) {k t : κ} {c : QueueCall T}
    (hk : ∀ x, s.call k ≠ .enqueuing x) (ht : t ∈ s.notFull.waiting)
    (hcall : s'.call = update s.call k c) (hwaiting : t ∉ s'.notFull.waiting) : s'.Coming t := by
  obtain ⟨x, hx, hsized⟩ := h.exists_of_mem_waiting ht
  have hne : t ≠ k := fun heq ↦ hk x (heq ▸ hx)
  refine ⟨hwaiting, x, ?_, hsized.2.1⟩
  rw [hcall, update_of_ne hne, hx]

theorem Enough.step {K : ℕ} (h : Enough K s) (hsound : s.Sound E max) (hmax : max < sizeMod)
    (hK : FitsByLength memorySize (Sized E max) max K) (hs : s.step a = .ok s') : Enough K s' := by
  intro hblocked
  cases step_cases hs with
  | refuse k x hlarge => exact h hblocked
  | enter k x hidle hle =>
    obtain ⟨coming, hcoming, hcard⟩ := h hblocked
    have hk : ∀ y, s.call k ≠ .enqueuing y := fun y hy ↦ by rw [hidle] at hy; cases hy
    exact ⟨coming, fun j hj ↦ (hcoming j hj).of_update hk rfl (Finset.Subset.refl _), hcard⟩
  | push k x wakes hcall hroom hwakes =>
    obtain ⟨coming, hcoming, hcard⟩ := h (hblocked.mono waiting_leave_subset)
    refine ⟨coming.erase k, fun j hj ↦ ?_, le_trans hcard (le_length_sized_push hcoming hcall)⟩
    obtain ⟨hne, hj⟩ := Finset.mem_erase.mp hj
    obtain ⟨hnot, y, hy, hpos⟩ := hcoming j hj
    refine ⟨fun hmem ↦ hnot (waiting_leave_subset hmem), y, ?_, hpos⟩
    exact (update_of_ne hne _ _).trans hy
  | waitFull k x wakes hcall hroom =>
    exact ⟨∅, fun j hj ↦ absurd hj (Finset.notMem_empty j),
      hsound.le_length_sized hmax hK hcall hroom⟩
  | dequeue k hidle =>
    obtain ⟨coming, hcoming, hcard⟩ := h hblocked
    have hk : ∀ y, s.call k ≠ .enqueuing y := fun y hy ↦ by rw [hidle] at hy; cases hy
    exact ⟨coming, fun j hj ↦ (hcoming j hj).of_update hk rfl (Finset.Subset.refl _), hcard⟩
  | waitEmpty k wakes hcall hempty => exact h hblocked
  | pop k wakes x queue hcall hqueue hwakes =>
    have hsubset : (s.notFull.notifyOne wakes).waiting ⊆ s.notFull.waiting :=
      waiting_notifyOne_subset
    obtain ⟨coming, hcoming, hcard⟩ := h (hblocked.mono hsubset)
    cases wakes with
    | none =>
      have hempty : s.notFull.waiting = ∅ := hwakes
      rw [hempty] at hsubset
      exact absurd (Finset.subset_empty.mp hsubset) hblocked.ne_empty
    | some t =>
      -- the producer that is woken makes up for the element taken out
      have ht : t ∈ s.notFull.waiting := hwakes
      have hk : ∀ y, s.call k ≠ .enqueuing y := fun y hy ↦ by rw [hcall] at hy; cases hy
      refine ⟨insert t coming, fun j hj ↦ ?_, ?_⟩
      · rcases Finset.mem_insert.mp hj with rfl | hj
        · exact hsound.coming_of_notified hk ht rfl (Finset.notMem_erase j _)
        · exact (hcoming j hj).of_update hk rfl hsubset
      · rw [Finset.card_insert_of_notMem fun hmem ↦ (hcoming t hmem).1 ht]
        have hlength := length_sized_le_cons x queue
        rw [hqueue] at hcard
        simp only
        omega

omit [DecidableEq κ] in
/-- Where one element leaving makes room for one, nobody is stranded. -/
theorem Enough.not_stranded {K : ℕ} (h : Enough K s) (hsound : s.Sound E max)
    (hK : FitsByLength memorySize (Sized E max) max K) : ¬s.Stranded := by
  rintro ⟨⟨k, x, hcall, hk, hfits⟩, -, -, hothers⟩
  obtain ⟨y, hy, hsized⟩ := hsound.exists_of_mem_waiting hk
  rw [hcall] at hy
  cases hy
  have hroom : (sized s.queue).length + 1 ≤ K := by
    rwa [← hsound.fits_iff hK hsized, ← hsound.accounted.total, ← hsound.maxMemorySize]
  obtain ⟨coming, hcoming, hcard⟩ := h ⟨k, hk⟩
  -- so somebody is on its way
  obtain ⟨j, hj⟩ : coming.Nonempty := Finset.card_pos.mp (by omega)
  obtain ⟨hnot, z, hz, -⟩ := hcoming j hj
  have hok := hsound.calls j
  rw [hz] at hok
  rcases hothers j with hidle | hfull | hempty
  · rw [hz] at hidle
    cases hidle
  · exact hnot hfull
  · exact hok.2.2.2 hempty

/-! ## Schedules

The runs that strand a producer are put together from single moves. What matters of a state is
the queue, the calls and who is blocked on `not_full_`. No consumer is ever blocked. -/

/-- Some state that is reached looks like this. -/
def Reachable (E : Set T) (max : ℕ) (queue : List T) (call : κ → QueueCall T)
    (notFull : CondVar κ) : Prop :=
  ∃ s, Reached E max s ∧ s.queue = queue ∧ s.call = call ∧ s.notFull = notFull ∧ s.notEmpty = .new

variable {queue : List T} {call : κ → QueueCall T} {notFull : CondVar κ} {k : κ} {x : T}

theorem Reached.push (h : Reached E max s) (hk : s.call k = .enqueuing x)
    (hempty : s.notEmpty = .new) : Reached E max (s.push k x none) := by
  refine h.step (a := .push k none) nofun ?_
  simp only [MemoryBlockingQueue.step, hk]
  exact guarded_eq_ok.mpr ⟨hempty ▸ rfl, rfl⟩

theorem Reachable.pop (h : Reachable E max (x :: queue) call notFull) (hk : call k = .idle) {t : κ}
    (ht : t ∈ notFull.waiting) : Reachable E max queue call (notFull.notifyOne (some t)) := by
  obtain ⟨s, hs, hqueue, rfl, rfl, hempty⟩ := h
  let called : MemoryBlockingQueue κ T := { s with call := update s.call k .dequeuing }
  have hcalled : Reached E max called :=
    hs.step (a := .dequeue k) (by rintro _ _ ⟨⟩) (by simp only [MemoryBlockingQueue.step, hk]; rfl)
  have hpop : Reached E max (called.pop k (some t)) := by
    refine hcalled.step (a := .pop k (some t)) (by rintro _ _ ⟨⟩) ?_
    simp only [MemoryBlockingQueue.step, called, update_self]
    exact guarded_eq_ok.mpr ⟨ht, rfl⟩
  refine ⟨_, hpop, ?_⟩
  have hcall : update s.call k .idle = s.call := by rw [← hk, update_eq_self]
  simp only [MemoryBlockingQueue.pop, called, hqueue, update_idem, hcall, hempty, true_and]
  rfl

/-! ## Exact accounting -/

variable (κ) in
/-- Whatever the program does, the sizes of its elements are counted right. -/
def CountsExactly (E : Set T) (max : ℕ) : Prop :=
  ∀ as : List (Action κ T), EnqueuesOnly E as → Along step Exact (new max) as

/-- The accounting is exact if a move keeps the size and no sum can wrap. -/
theorem countsExactly_of_forall (hmax : max < sizeMod)
    (hmoved : ∀ x ∈ E, memorySize (movedFrom x) = memorySize x)
    (hsum : ∀ x ∈ E, memorySize x ≤ max → max + memorySize x < sizeMod) :
    CountsExactly κ E max := by
  have hexact : ∀ s : MemoryBlockingQueue κ T, s.Sound E max → ∀ a, s.Exact a := by
    intro s hs a x hx
    obtain ⟨hE, hle⟩ := hs.of_mem_pushes hx
    have hbounded : s.curMemorySize ≤ max := hs.maxMemorySize ▸ hs.accounted.bounded
    exact ⟨hmoved x hE, lt_of_le_of_lt (Nat.add_le_add_right hbounded _) (hsum x hE hle)⟩
  intro as has
  exact along_imp (I := Sound E max) (P := fun _ a ↦ ∀ k x, a = .enqueue k x → x ∈ E)
    (fun s a _ hs ha ↦ hs.step hmax (hexact s hs a) ha) (fun s a hs _ ↦ hexact s hs a) sound_new
    (along_of_forall fun _ a ha k x heq ↦ has k x (heq ▸ ha))

section Exactly

variable (hmax : max < sizeMod) (hexact : CountsExactly κ E max)

include hexact in
theorem Reached.exact (h : Reached E max s) (ha : ∀ k x, a = .enqueue k x → x ∈ E) : s.Exact a := by
  obtain ⟨as, has, hrun⟩ := h
  have honly : EnqueuesOnly E (as ++ [a]) := by
    intro k x hx
    rcases mem_append.mp hx with hx | hx
    · exact has k x hx
    · exact ha k x (mem_singleton.mp hx).symm
  exact (along_append (hexact _ honly) hrun).1

include hexact in
/-- The invariant rule for a program that enqueues elements of `E`. -/
theorem Reached.induct {I : MemoryBlockingQueue κ T → Prop} (hnew : I (new max))
    (hstep : ∀ s a s', I s → s.Exact a → (∀ k x, a = .enqueue k x → x ∈ E) →
      s.step a = .ok s' → I s') (h : Reached E max s) : I s := by
  obtain ⟨as, has, hrun⟩ := h
  have hE : ∀ a ∈ as, ∀ k x, a = .enqueue k x → x ∈ E := fun a ha k x heq ↦ has k x (heq ▸ ha)
  exact runAll_induct (fun s a s' hI hP ↦ hstep s a s' hI hP.2 hP.1) hnew
    (along_and_of_forall hE (hexact as has)) hrun

include hmax hexact

theorem Reached.sound (h : Reached E max s) : s.Sound E max :=
  h.induct hexact sound_new fun _ _ _ hsound ↦ hsound.step hmax

theorem Reached.not_stranded (h : Reached E max s) {K : ℕ}
    (hK : FitsByLength memorySize (Sized E max) max K) : ¬s.Stranded := by
  have hnew : Enough K (new max : MemoryBlockingQueue κ T) := fun hblocked ↦
    absurd rfl hblocked.ne_empty
  have hinv : s.Sound E max ∧ Enough K s :=
    h.induct hexact (I := fun s ↦ s.Sound E max ∧ Enough K s) ⟨sound_new, hnew⟩
      fun s a s' hI hexact ha hs ↦
        ⟨hI.1.step hmax hexact ha hs, hI.2.step hI.1 hmax hK hs⟩
  exact hinv.2.not_stranded hinv.1 hK

theorem Reachable.enter (h : Reachable E max queue call notFull) (hk : call k = .idle)
    (hx : x ∈ E) (hle : memorySize x ≤ max) :
    Reachable E max queue (update call k (.enqueuing x)) notFull := by
  obtain ⟨s, hs, rfl, rfl, rfl, hempty⟩ := h
  have hmem : ∀ j y, Action.enqueue k x = .enqueue j y → y ∈ E := by
    intro j y heq
    cases heq
    exact hx
  have hnot : ¬s.maxMemorySize < memorySize x := by
    rw [(hs.sound hmax hexact).maxMemorySize]
    exact not_lt.mpr hle
  refine ⟨_, hs.step hmem (by simp only [MemoryBlockingQueue.step, hk]; rfl), ?_⟩
  rw [enqueue, if_neg hnot]
  exact ⟨rfl, rfl, rfl, hempty⟩

theorem Reachable.push (h : Reachable E max queue call notFull) (hk : call k = .enqueuing x)
    (hle : memoryOf queue + memorySize x ≤ max) :
    Reachable E max (queue ++ [x]) (update call k .idle) (notFull.leave k) := by
  obtain ⟨s, hs, rfl, rfl, rfl, hempty⟩ := h
  have hroom : s.hasRoom x = true := (hs.sound hmax hexact).hasRoom_of_le hmax hle
  refine ⟨_, hs.push hk hempty, ?_⟩
  rw [MemoryBlockingQueue.push, if_pos hroom]
  exact ⟨rfl, rfl, rfl, hempty⟩

theorem Reached.hasRoom_of_lt (h : Reached E max s) (hk : s.call k = .enqueuing x)
    (hempty : s.notEmpty = .new) (hlt : max < memoryOf s.queue + memorySize x) :
    s.hasRoom x = false := by
  by_contra htrue
  have hroom : s.hasRoom x = true := Bool.not_eq_false _ ▸ htrue
  have hsound : s.Sound E max := h.sound hmax hexact
  have hcan : s.notEmpty.CanNotify none := hempty ▸ rfl
  obtain ⟨-, hsum⟩ := h.exact hexact (a := .push k none) nofun x (pushes_of_enqueuing hk hroom hcan)
  have hle : sizeAdd s.curMemorySize (memorySize x) ≤ s.maxMemorySize := of_decide_eq_true hroom
  rw [sizeAdd_of_lt hsum, hsound.accounted.total, hsound.maxMemorySize] at hle
  exact absurd hle (not_le.mpr hlt)

theorem Reachable.block (h : Reachable E max queue call notFull) (hk : call k = .enqueuing x)
    (hlt : max < memoryOf queue + memorySize x) : Reachable E max queue call (notFull.wait k) := by
  obtain ⟨s, hs, rfl, rfl, rfl, hempty⟩ := h
  have hroom : s.hasRoom x = false := hs.hasRoom_of_lt hmax hexact hk hempty hlt
  refine ⟨_, hs.push hk hempty, ?_⟩
  rw [MemoryBlockingQueue.push, if_neg (by rw [hroom]; decide)]
  exact ⟨rfl, rfl, rfl, hempty⟩

/-- A queue can be filled with any elements that fit. -/
theorem reachable_of_fits [Nonempty κ] (l : List T) (hE : ∀ x ∈ l, x ∈ E)
    (hle : memoryOf l ≤ max) : Reachable E max l (fun _ : κ ↦ .idle) .new := by
  obtain ⟨k⟩ := ‹Nonempty κ›
  induction l using List.reverseRecOn with
  | nil => exact ⟨new max, reached_new, rfl, rfl, rfl, rfl⟩
  | append_singleton l x ih =>
    rw [memoryOf_append, memoryOf_cons, memoryOf_nil, add_zero] at hle
    have hfilled := ih (fun y hy ↦ hE y (mem_append_left _ hy)) (by omega)
    have henter := hfilled.enter hmax hexact (k := k) rfl (hE x (by simp)) (by omega)
    have hpush := henter.push hmax hexact (update_self k _ _) hle
    rwa [update_idem, update_eq_self_iff.mpr rfl] at hpush

/-- A blocked producer would have room, nobody is notified, and all others have returned or are
blocked. -/
theorem Reachable.exists_stranded (h : Reachable E max queue call notFull)
    (hcall : call k = .enqueuing x) (hk : k ∈ notFull.waiting)
    (hroom : memoryOf queue + memorySize x ≤ max) (hnone : notFull.notified = ∅)
    (hidle : ∀ j, call j = .idle ∨ j ∈ notFull.waiting) :
    ∃ s : MemoryBlockingQueue κ T, Reached E max s ∧ s.Stranded := by
  obtain ⟨s, hs, rfl, rfl, rfl, hempty⟩ := h
  have hsound : s.Sound E max := hs.sound hmax hexact
  refine ⟨s, hs, ⟨k, x, hcall, hk, ?_⟩, hnone, ?_, fun j ↦ (hidle j).imp_right Or.inl⟩
  · rwa [hsound.accounted.total, hsound.maxMemorySize]
  · rw [hempty]
    rfl

variable {p q c : κ} (hpq : p ≠ q) (hcp : c ≠ p) (hcq : c ≠ q)
include hpq hcp hcq

/-- Two producers are blocked, and an element is taken out. One of them is notified. -/
theorem reachable_notified (front x y : T) (queue : List T)
    (hfits : memoryOf (front :: queue) ≤ max) (hE : ∀ z ∈ front :: queue, z ∈ E)
    (hx : x ∈ E) (hy : y ∈ E) (hxle : memorySize x ≤ max) (hyle : memorySize y ≤ max)
    (hxlt : max < memoryOf (front :: queue) + memorySize x)
    (hylt : max < memoryOf (front :: queue) + memorySize y) :
    Reachable E max queue
      (update (update (fun _ ↦ .idle) p (.enqueuing x)) q (.enqueuing y))
      ⟨{p}, {q}⟩ := by
  have : Nonempty κ := ⟨c⟩
  have hfilled : Reachable E max (front :: queue) (fun _ : κ ↦ .idle) .new :=
    reachable_of_fits hmax hexact (front :: queue) hE hfits
  have hfirst := (hfilled.enter hmax hexact (k := p) rfl hx hxle).block hmax hexact
    (update_self p _ _) hxlt
  have hsecond := (hfirst.enter hmax hexact (k := q) (update_of_ne hpq.symm _ _) hy
    hyle).block hmax hexact (update_self q _ _) hylt
  have hpop := hsecond.pop (k := c) (t := q)
    (by rw [update_of_ne hcq, update_of_ne hcp]) (by simp)
  have hcond : ((CondVar.new.wait p).wait q).notifyOne (some q) = ⟨{p}, {q}⟩ := by
    simp [CondVar.new, CondVar.wait, CondVar.notifyOne, hpq.symm]
  rwa [hcond] at hpop

/-- **Two fit.** One element leaves and makes room for two producers. -/
theorem exists_stranded_of_two_fit (front x y : T) (queue : List T)
    (hfits : memoryOf (front :: queue) ≤ max) (hE : ∀ z ∈ front :: queue, z ∈ E)
    (hx : x ∈ E) (hy : y ∈ E) (hxlt : max < memoryOf (front :: queue) + memorySize x)
    (hylt : max < memoryOf (front :: queue) + memorySize y)
    (hboth : memoryOf queue + memorySize y + memorySize x ≤ max) :
    ∃ s : MemoryBlockingQueue κ T, Reached E max s ∧ s.Stranded := by
  have hnotified := reachable_notified hmax hexact hpq hcp hcq front x y queue hfits hE hx hy
    (by omega) (by omega) hxlt hylt
  have hpush := hnotified.push hmax hexact (update_self q _ _) (by omega)
  have hwaiting : p ∈ (CondVar.leave ⟨{p}, {q}⟩ q).waiting :=
    mem_waiting_leave.mpr ⟨hpq, Finset.mem_singleton_self p⟩
  refine hpush.exists_stranded hmax hexact (k := p) (x := x) ?_ hwaiting ?_
    (Finset.erase_singleton q) fun k ↦ ?_
  · rw [update_of_ne hpq, update_of_ne hpq, update_self]
  · rw [memoryOf_append]
    simpa using hboth
  · by_cases hkp : k = p
    · rw [hkp]
      exact Or.inr hwaiting
    · refine Or.inl ?_
      simp [update_apply, hkp]

/-- **The wrong one is woken.** One element leaves, the producer that is woken still has no room,
and the other would have. -/
theorem exists_stranded_of_wrong_wakeup (x y : T) (queue : List T)
    (hfits : memoryOf (x :: queue) ≤ max) (hE : ∀ z ∈ x :: queue, z ∈ E) (hy : y ∈ E)
    (hyle : memorySize y ≤ max) (hxlt : max < memoryOf (x :: queue) + memorySize x)
    (hylt : max < memoryOf queue + memorySize y) :
    ∃ s : MemoryBlockingQueue κ T, Reached E max s ∧ s.Stranded := by
  have hcons : memoryOf (x :: queue) = memorySize x + memoryOf queue := memoryOf_cons x queue
  have hnotified := reachable_notified hmax hexact hpq hcp hcq x x y queue hfits hE
    (hE x mem_cons_self) hy (by omega) hyle hxlt (by omega)
  have hblock := hnotified.block hmax hexact (update_self q _ _) hylt
  have hwaiting : ∀ k, k ∈ (CondVar.wait ⟨{p}, {q}⟩ q).waiting ↔ k = q ∨ k = p := by
    intro k
    rw [mem_waiting_wait, Finset.mem_singleton]
  refine hblock.exists_stranded hmax hexact ?_ ((hwaiting p).mpr (Or.inr rfl)) (x := x) (by omega)
    (Finset.erase_singleton q) fun k ↦ ?_
  · rw [update_of_ne hpq, update_self]
  · rw [hwaiting]
    by_cases hk : k = q ∨ k = p
    · exact Or.inr hk
    · refine Or.inl ?_
      simp only [not_or] at hk
      rw [update_of_ne hk.1, update_of_ne hk.2]

theorem exists_stranded (hnot : ¬∃ K, FitsByLength memorySize (Sized E max) max K) :
    ∃ s : MemoryBlockingQueue κ T, Reached E max s ∧ s.Stranded := by
  obtain ⟨rest, a, ha, b, hb, d, hd, hrest, hroom, hfull, hboth⟩ :=
    exists_of_not_fitsByLength (fun x hx ↦ hx.2.1) (fun x hx ↦ hx.2.2) hnot
  change memoryOf rest + _ ≤ max at hroom
  change max < memoryOf rest + _ + _ at hfull
  change memoryOf rest + _ + _ ≤ max at hboth
  have hE : ∀ z ∈ b :: rest, z ∈ E := by
    intro z hz
    rcases mem_cons.mp hz with rfl | hz
    · exact hb.1
    · exact (hrest z hz).1
  by_cases hba : memoryOf (b :: rest) + memorySize a ≤ max
  · -- copies of `a` leave room for one more
    obtain ⟨l, hl, hge, hfits, hlast⟩ := exists_filled_up ha.2.1 (b :: rest) hba
    change memoryOf (b :: rest) ≤ memoryOf l at hge
    change memoryOf l + _ ≤ max at hfits
    change max < memoryOf l + _ + _ at hlast
    rw [memoryOf_cons] at hge
    refine exists_stranded_of_wrong_wakeup hmax hexact hpq hcp hcq a d l ?_ (fun z hz ↦ ?_) hd.1
      hd.2.2 ?_ ?_
    · rw [memoryOf_cons]
      omega
    · rcases mem_cons.mp hz with rfl | hz
      · exact ha.1
      · rcases hl z hz with hz | rfl
        · exact hE z hz
        · exact ha.1
    · rw [memoryOf_cons]
      omega
    · omega
  · rw [memoryOf_cons] at hba
    refine exists_stranded_of_two_fit hmax hexact hpq hcp hcq b a d rest ?_ hE ha.1 hd.1 ?_ ?_
      hboth
    all_goals
      rw [memoryOf_cons]
      omega

end Exactly

/-- **Stranded producers.** Suppose that there are three threads at least and that the accounting is
exact. In no state that is reached is a producer stranded, exactly if the number of elements that
take memory decides whether they fit into the queue. -/
theorem no_stranded_iff (E : Set T) (max : ℕ) (hmax : max < sizeMod)
    (hthreads : ∃ p q c : κ, p ≠ q ∧ c ≠ p ∧ c ≠ q) (hexact : CountsExactly κ E max) :
    (∀ as : List (Action κ T), EnqueuesOnly E as →
      ∀ s, runAll step (new max) as = .ok s → ¬s.Stranded) ↔
    ∃ K, FitsByLength memorySize (Sized E max) max K := by
  constructor
  · intro h
    by_contra hnot
    obtain ⟨p, q, c, hpq, hcp, hcq⟩ := hthreads
    obtain ⟨s, ⟨as, has, hrun⟩, hstranded⟩ := exists_stranded hmax hexact hpq hcp hcq hnot
    exact h as has s hrun hstranded
  · rintro ⟨K, hK⟩ as has s hrun
    exact Reached.not_stranded hmax hexact ⟨as, has, hrun⟩ hK

/-- Records of five bytes in a queue for ten. -/
theorem no_stranded_iff_five : CountsExactly (Fin 3) {(⟨5⟩ : Record)} 10 ∧
    ∀ as : List (Action (Fin 3) Record), EnqueuesOnly {⟨5⟩} as →
      ∀ s, runAll step (new 10) as = .ok s → ¬s.Stranded := by
  have hexact : CountsExactly (Fin 3) {(⟨5⟩ : Record)} 10 := by
    refine countsExactly_of_forall (by decide) (fun x _ ↦ rfl) fun x hx _ ↦ ?_
    rw [Set.mem_singleton_iff.mp hx]
    decide
  refine ⟨hexact, (no_stranded_iff {(⟨5⟩ : Record)} 10 (by decide) ⟨0, 1, 2, by decide⟩
    hexact).mpr ⟨10 / 5, fitsByLength_of_eq (by decide) fun x hx ↦ ?_⟩⟩
  rw [Set.mem_singleton_iff.mp hx.1]
  rfl

/-- A record of ten bytes is taken out, and there would be room for two producers. -/
theorem stranded_two_fit :
    ∃ s : MemoryBlockingQueue (Fin 3) Record,
      runAll step (new 10) [.enqueue 0 ⟨10⟩, .push 0 none, .enqueue 1 ⟨5⟩, .push 1 none,
        .enqueue 2 ⟨5⟩, .push 2 none, .dequeue 0, .pop 0 (some 2), .push 2 none] = .ok s ∧
      s.Stranded := by
  refine exists_ok_of_map
    (fun s ↦ ((s.call 0, s.call 1, s.call 2), (s.notFull, s.notEmpty), s.curMemorySize,
      s.maxMemorySize))
    ((.idle, .enqueuing ⟨5⟩, .idle), (⟨{1}, ∅⟩, ⟨∅, ∅⟩), 5, 10) (by decide +kernel)
    fun s hs hobserved ↦ ?_
  simp only [Prod.mk.injEq] at hobserved
  obtain ⟨⟨h0, h1, h2⟩, ⟨hfull, hempty⟩, hcur, hmax⟩ := hobserved
  refine ⟨⟨1, ⟨5⟩, h1, ?_, ?_⟩, ?_, ?_, ?_⟩
  · rw [hfull]
    exact Finset.mem_singleton_self 1
  · rw [hcur, hmax]
    decide
  · rw [hfull]
  · rw [hempty]
  · rw [hfull]
    exact Fin.forall_fin_succ.mpr ⟨Or.inl h0, Fin.forall_fin_two.mpr
      ⟨Or.inr (Or.inl (Finset.mem_singleton_self 1)), Or.inl h2⟩⟩

end MemoryBlockingQueue

end Fishnet
