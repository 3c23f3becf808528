import Fishnet.Library.Run
import Fishnet.Library.Threads
import Fishnet.Library.Vector

/-!
# The queue bounded by memory

`MemoryBlockingQueue` bounds the memory that its elements take, not their number. `enqueue` refuses
an element that is larger than the bound. Otherwise it waits until there is room, moves the element
into the queue and adds its size to a total. `dequeue` takes an element out and subtracts its size.

## What goes wrong

The size is added after the element has been moved. What is added is therefore the size that a
moved-from object reports, which for most types is zero. The total and the sum in the test are of
type `size_t`, so they may also wrap.

## The model

A critical section is one action. If it comes to a wait, it ends there, and the thread executes the
section again when it is back. `size`, `memorySize` and `maxMemorySize` only read. An element that
has been moved into the queue, or out of it, has the size that it had before.

The fields `returned` and `dequeued` are history: the calls of `enqueue` that have returned, with
the result, and the elements taken out. No action depends on them.

## Main results

* `MemoryBlockingQueue.accounting_iff`: when the total is the memory that the elements take.
* `MemoryBlockingQueue.first_in_first_out`
-/

namespace Fishnet

open Function List

/-- What the queue uses of its elements. -/
class MemorySized (T : Type) where
  memorySize : T → ℕ
  memorySize_lt : ∀ x, memorySize x < sizeMod
  /-- What a move leaves behind. -/
  movedFrom : T → T

open MemorySized

/-- What a thread is doing. -/
inductive QueueCall (T : Type) where
  | idle
  /-- In `enqueue`, after the comparison with the bound. -/
  | enqueuing (x : T)
  | dequeuing
  deriving DecidableEq, Repr

/-- The queue, used by the threads in `κ`. -/
structure MemoryBlockingQueue (κ T : Type) where
  /-- `max_memory_size_`. -/
  maxMemorySize : ℕ
  /-- `cur_memory_size_`. -/
  curMemorySize : ℕ
  /-- `queue_`. -/
  queue : List T
  /-- `not_empty_`. -/
  notEmpty : CondVar κ
  /-- `not_full_`. -/
  notFull : CondVar κ
  call : κ → QueueCall T
  returned : List (T × Bool)
  dequeued : List T

namespace MemoryBlockingQueue

variable {κ T : Type} [MemorySized T]

omit [MemorySized T] in
/-- A queue as constructed. -/
def new (maxMemorySize : ℕ) : MemoryBlockingQueue κ T where
  maxMemorySize := maxMemorySize
  curMemorySize := 0
  queue := []
  notEmpty := .new
  notFull := .new
  call _ := .idle
  returned := []
  dequeued := []

/-! ## The functions -/

/-- The predicate of the wait in `enqueue`. -/
def hasRoom (s : MemoryBlockingQueue κ T) (x : T) : Bool :=
  sizeAdd s.curMemorySize (memorySize x) ≤ s.maxMemorySize

variable [DecidableEq κ] (s : MemoryBlockingQueue κ T)

/-- `enqueue` up to the lock. -/
def enqueue (k : κ) (x : T) : MemoryBlockingQueue κ T :=
  if s.maxMemorySize < memorySize x then { s with returned := s.returned ++ [(x, false)] }
  else { s with call := update s.call k (.enqueuing x) }

/-- The critical section of `enqueue`. -/
def push (k : κ) (x : T) (wakes : Option κ) : MemoryBlockingQueue κ T :=
  if s.hasRoom x then
    { s with
      queue := s.queue ++ [x]
      -- `x` has been moved from
      curMemorySize := sizeAdd s.curMemorySize (memorySize (movedFrom x))
      notFull := s.notFull.leave k, notEmpty := s.notEmpty.notifyOne wakes
      call := update s.call k .idle, returned := s.returned ++ [(x, true)] }
  else { s with notFull := s.notFull.wait k }

/-- The critical section of `dequeue`. -/
def pop (k : κ) (wakes : Option κ) : MemoryBlockingQueue κ T :=
  match s.queue with
  | [] => { s with notEmpty := s.notEmpty.wait k }
  | x :: queue =>
    { s with
      queue := queue, curMemorySize := sizeSub s.curMemorySize (memorySize x)
      notEmpty := s.notEmpty.leave k, notFull := s.notFull.notifyOne wakes
      call := update s.call k .idle, dequeued := s.dequeued ++ [x] }

/-! ## The actions -/

inductive Action (κ T : Type) where
  /-- A thread calls `enqueue` and compares the size with the bound. -/
  | enqueue (k : κ) (x : T)
  /-- The critical section of `enqueue`. A thread that waits on `not_empty_` may be woken. -/
  | push (k : κ) (wakes : Option κ)
  /-- A thread calls `dequeue`. -/
  | dequeue (k : κ)
  /-- The critical section of `dequeue`. A thread that waits on `not_full_` may be woken. -/
  | pop (k : κ) (wakes : Option κ)
  deriving DecidableEq, Repr

def step : Action κ T → Except Halt (MemoryBlockingQueue κ T)
  | .enqueue k x =>
    match s.call k with
    | .idle => .ok (s.enqueue k x)
    | _ => .error .disabled
  | .push k wakes =>
    match s.call k with
    | .enqueuing x => guarded (s.notEmpty.CanNotify wakes) (s.push k x wakes)
    | _ => .error .disabled
  | .dequeue k =>
    match s.call k with
    | .idle => .ok { s with call := update s.call k .dequeuing }
    | _ => .error .disabled
  | .pop k wakes =>
    match s.call k with
    | .dequeuing => guarded (s.notFull.CanNotify wakes) (s.pop k wakes)
    | _ => .error .disabled

variable {s} {s' : MemoryBlockingQueue κ T}

/-- What an action can do. -/
inductive StepCase (s : MemoryBlockingQueue κ T) :
    Action κ T → MemoryBlockingQueue κ T → Prop
  /-- `enqueue` returns `false`. -/
  | refuse (k : κ) (x : T) (hlarge : s.maxMemorySize < memorySize x) :
    StepCase s (.enqueue k x) { s with returned := s.returned ++ [(x, false)] }
  | enter (k : κ) (x : T) (hidle : s.call k = .idle) (hle : memorySize x ≤ s.maxMemorySize) :
    StepCase s (.enqueue k x) { s with call := update s.call k (.enqueuing x) }
  | push (k : κ) (x : T) (wakes : Option κ) (hcall : s.call k = .enqueuing x)
      (hroom : s.hasRoom x = true) (hwakes : s.notEmpty.CanNotify wakes) :
    StepCase s (.push k wakes) { s with
      queue := s.queue ++ [x]
      curMemorySize := sizeAdd s.curMemorySize (memorySize (movedFrom x))
      notFull := s.notFull.leave k, notEmpty := s.notEmpty.notifyOne wakes
      call := update s.call k .idle, returned := s.returned ++ [(x, true)] }
  /-- A producer blocks. -/
  | waitFull (k : κ) (x : T) (wakes : Option κ) (hcall : s.call k = .enqueuing x)
      (hroom : s.hasRoom x = false) :
    StepCase s (.push k wakes) { s with notFull := s.notFull.wait k }
  | dequeue (k : κ) (hidle : s.call k = .idle) :
    StepCase s (.dequeue k) { s with call := update s.call k .dequeuing }
  /-- A consumer blocks. -/
  | waitEmpty (k : κ) (wakes : Option κ) (hcall : s.call k = .dequeuing) (hempty : s.queue = []) :
    StepCase s (.pop k wakes) { s with notEmpty := s.notEmpty.wait k }
  | pop (k : κ) (wakes : Option κ) (x : T) (queue : List T) (hcall : s.call k = .dequeuing)
      (hqueue : s.queue = x :: queue) (hwakes : s.notFull.CanNotify wakes) :
    StepCase s (.pop k wakes) { s with
      queue := queue, curMemorySize := sizeSub s.curMemorySize (memorySize x)
      notEmpty := s.notEmpty.leave k, notFull := s.notFull.notifyOne wakes
      call := update s.call k .idle, dequeued := s.dequeued ++ [x] }

theorem step_cases {a : Action κ T} : s.step a = .ok s' → StepCase s a s' := by
  cases a with
  | enqueue k x =>
    rw [step]
    cases hcall : s.call k with
    | idle =>
      rintro ⟨⟩
      rw [enqueue]
      split_ifs with hlarge
      · exact .refuse k x hlarge
      · exact .enter k x hcall (not_lt.mp hlarge)
    | _ => exact nofun
  | push k wakes =>
    rw [step]
    cases hcall : s.call k with
    | enqueuing x =>
      intro hs
      obtain ⟨hwakes, rfl⟩ := guarded_eq_ok.mp hs
      rw [push]
      split_ifs with hroom
      · exact .push k x wakes hcall hroom hwakes
      · exact .waitFull k x wakes hcall (Bool.not_eq_true _ ▸ hroom)
    | _ => exact nofun
  | dequeue k =>
    rw [step]
    cases hcall : s.call k with
    | idle =>
      rintro ⟨⟩
      exact .dequeue k hcall
    | _ => exact nofun
  | pop k wakes =>
    rw [step]
    cases hcall : s.call k with
    | dequeuing =>
      intro hs
      obtain ⟨hwakes, rfl⟩ := guarded_eq_ok.mp hs
      rw [pop]
      split
      next hqueue => exact .waitEmpty k wakes hcall hqueue
      next hqueue => exact .pop k wakes _ _ hcall hqueue hwakes
    | _ => exact nofun

/-! ## Accounting -/

/-- The memory that elements take. -/
def memoryOf (l : List T) : ℕ := (l.map memorySize).sum

@[simp] theorem memoryOf_nil : memoryOf ([] : List T) = 0 := rfl

@[simp] theorem memoryOf_cons (x : T) (l : List T) :
    memoryOf (x :: l) = memorySize x + memoryOf l := rfl

@[simp] theorem memoryOf_append (l l' : List T) :
    memoryOf (l ++ l') = memoryOf l + memoryOf l' := by
  rw [memoryOf, map_append, sum_append]
  rfl

/-- The elements that `enqueue` has accepted. -/
def accepted (s : MemoryBlockingQueue κ T) : List T := (s.returned.filter Prod.snd).map Prod.fst

/-- What should hold outside the critical sections: the total is right and within the bound, so that
the next subtraction does not wrap; `enqueue` has returned `false` exactly for the elements that are
too large, and only the others have entered the queue. -/
structure Accounted (s : MemoryBlockingQueue κ T) : Prop where
  total : s.curMemorySize = memoryOf s.queue
  bounded : s.curMemorySize ≤ s.maxMemorySize
  noUnderflow : ∀ x queue, s.queue = x :: queue → memorySize x ≤ s.curMemorySize
  refused : ∀ r ∈ s.returned, r.2 = false ↔ s.maxMemorySize < memorySize r.1
  entered : s.accepted = s.dequeued ++ s.queue

/-- The element that an action pushes. -/
def pushes (s : MemoryBlockingQueue κ T) : Action κ T → Option T
  | .push k wakes =>
    match s.call k with
    | .enqueuing x => if s.notEmpty.CanNotify wakes ∧ s.hasRoom x then some x else none
    | _ => none
  | _ => none

/-- An element that is pushed reports its size after the move as before, and the sum in the test has
not wrapped. -/
def Exact (s : MemoryBlockingQueue κ T) (a : Action κ T) : Prop :=
  ∀ x ∈ s.pushes a, memorySize (movedFrom x) = memorySize x ∧
    s.curMemorySize + memorySize x < sizeMod

instance (s : MemoryBlockingQueue κ T) (a : Action κ T) : Decidable (s.Exact a) :=
  inferInstanceAs (Decidable (∀ x ∈ s.pushes a, _))

theorem pushes_of_enqueuing {k : κ} {x : T} {wakes : Option κ} (hcall : s.call k = .enqueuing x)
    (hroom : s.hasRoom x = true) (hwakes : s.notEmpty.CanNotify wakes) :
    s.pushes (.push k wakes) = some x := by
  simp only [pushes, hcall]
  exact if_pos ⟨hwakes, hroom⟩

theorem exists_of_mem_pushes {a : Action κ T} {x : T} (hx : x ∈ s.pushes a) :
    ∃ k wakes, a = .push k wakes ∧ s.call k = .enqueuing x ∧ s.notEmpty.CanNotify wakes ∧
      s.hasRoom x = true := by
  cases a with
  | push k wakes =>
    cases hcall : s.call k with
    | enqueuing y =>
      simp only [pushes, hcall] at hx
      by_cases h : s.notEmpty.CanNotify wakes ∧ s.hasRoom y
      · rw [if_pos h, Option.mem_some_iff] at hx
        subst hx
        exact ⟨k, wakes, rfl, hcall, h⟩
      · rw [if_neg h] at hx
        cases hx
    | _ =>
      simp only [pushes, hcall] at hx
      cases hx
  | _ => cases hx

omit [DecidableEq κ] in
theorem accounted_new (maxMemorySize : ℕ) :
    (new maxMemorySize : MemoryBlockingQueue κ T).Accounted where
  total := rfl
  bounded := Nat.zero_le _
  noUnderflow x queue hqueue := by cases hqueue
  refused r hr := by cases hr
  entered := rfl

omit [DecidableEq κ] in
/-- The next element to be taken out is part of the total. -/
theorem memorySize_le_of_total (htotal : s.curMemorySize = memoryOf s.queue) (x : T)
    (queue : List T) (hqueue : s.queue = x :: queue) : memorySize x ≤ s.curMemorySize := by
  rw [htotal, hqueue, memoryOf_cons]
  exact Nat.le_add_right _ _

theorem Accounted.push (h : s.Accounted) {k : κ} {x : T} {wakes : Option κ}
    (hroom : s.hasRoom x = true) (hmoved : memorySize (movedFrom x) = memorySize x)
    (hlt : s.curMemorySize + memorySize x < sizeMod) : (s.push k x wakes).Accounted := by
  have hle : s.curMemorySize + memorySize x ≤ s.maxMemorySize := by
    have hroom' : sizeAdd s.curMemorySize (memorySize x) ≤ s.maxMemorySize :=
      of_decide_eq_true hroom
    rwa [sizeAdd_of_lt hlt] at hroom'
  have htotal : sizeAdd s.curMemorySize (memorySize (movedFrom x)) = memoryOf (s.queue ++ [x]) := by
    rw [hmoved, sizeAdd_of_lt hlt, h.total, memoryOf_append, memoryOf_cons, memoryOf_nil, add_zero]
  rw [MemoryBlockingQueue.push, if_pos hroom]
  refine ⟨htotal, ?_, memorySize_le_of_total htotal, fun r hr ↦ ?_, ?_⟩
  · show sizeAdd s.curMemorySize (memorySize (movedFrom x)) ≤ s.maxMemorySize
    rwa [hmoved, sizeAdd_of_lt hlt]
  · rcases mem_append.mp hr with hr | hr
    · exact h.refused r hr
    · rw [mem_singleton.mp hr]
      have hsize : memorySize x ≤ s.maxMemorySize := le_trans (Nat.le_add_left _ _) hle
      exact ⟨nofun, fun hlarge ↦ absurd hlarge (not_lt.mpr hsize)⟩
  · have hentered : s.accepted ++ [x] = s.dequeued ++ (s.queue ++ [x]) := by
      rw [h.entered, append_assoc]
    simpa [accepted] using hentered

theorem not_accounted_push (h : s.Accounted) {k : κ} {x : T} {wakes : Option κ}
    (hroom : s.hasRoom x = true) (hwrong : ¬(memorySize (movedFrom x) = memorySize x ∧
      s.curMemorySize + memorySize x < sizeMod)) : ¬(s.push k x wakes).Accounted := by
  intro h'
  have htotal : sizeAdd s.curMemorySize (memorySize (movedFrom x)) =
      s.curMemorySize + memorySize x := by
    have htotal' := h'.total
    rw [push, if_pos hroom] at htotal'
    rw [h.total] at htotal' ⊢
    simpa using htotal'
  have hlt : s.curMemorySize + memorySize x < sizeMod := htotal ▸ Nat.mod_lt _ (by decide)
  refine hwrong ⟨?_, hlt⟩
  -- neither size reaches the modulus, so they agree if they agree modulo it
  have hmod : s.curMemorySize + memorySize (movedFrom x) ≡ s.curMemorySize + memorySize x
      [MOD sizeMod] := htotal.trans (Nat.mod_eq_of_lt hlt).symm
  exact (Nat.ModEq.add_left_cancel' _ hmod).eq_of_lt_of_lt (MemorySized.memorySize_lt _)
    (MemorySized.memorySize_lt _)

theorem Accounted.step (h : s.Accounted) (hlt : s.curMemorySize < sizeMod) {a : Action κ T}
    (hexact : s.Exact a) (hs : s.step a = .ok s') : s'.Accounted ∧ s'.curMemorySize < sizeMod := by
  cases step_cases hs with
  | refuse k x hlarge =>
    refine ⟨⟨h.total, h.bounded, h.noUnderflow, fun r hr ↦ ?_, ?_⟩, hlt⟩
    · rcases mem_append.mp hr with hr | hr
      · exact h.refused r hr
      · rw [mem_singleton.mp hr]
        exact ⟨fun _ ↦ hlarge, fun _ ↦ rfl⟩
    · simpa [accepted] using h.entered
  | enter k x hidle hle => exact ⟨⟨h.total, h.bounded, h.noUnderflow, h.refused, h.entered⟩, hlt⟩
  | push k x wakes hcall hroom hwakes =>
    obtain ⟨hmoved, hsum⟩ := hexact x (pushes_of_enqueuing hcall hroom hwakes)
    have hpush : (s.push k x wakes).Accounted := h.push hroom hmoved hsum
    rw [MemoryBlockingQueue.push, if_pos hroom] at hpush
    exact ⟨hpush, Nat.mod_lt _ (by decide)⟩
  | waitFull k x wakes hcall hroom =>
    exact ⟨⟨h.total, h.bounded, h.noUnderflow, h.refused, h.entered⟩, hlt⟩
  | dequeue k hidle => exact ⟨⟨h.total, h.bounded, h.noUnderflow, h.refused, h.entered⟩, hlt⟩
  | waitEmpty k wakes hcall hempty =>
    exact ⟨⟨h.total, h.bounded, h.noUnderflow, h.refused, h.entered⟩, hlt⟩
  | pop k wakes x queue hcall hqueue hwakes =>
    have hsub : sizeSub s.curMemorySize (memorySize x) = s.curMemorySize - memorySize x :=
      sizeSub_of_le (h.noUnderflow x queue hqueue) hlt
    have htotal : sizeSub s.curMemorySize (memorySize x) = memoryOf queue := by
      rw [hsub, h.total, hqueue, memoryOf_cons, Nat.add_sub_cancel_left]
    refine ⟨⟨htotal, ?_, memorySize_le_of_total htotal, h.refused, ?_⟩, Nat.mod_lt _ (by decide)⟩
    · show sizeSub s.curMemorySize (memorySize x) ≤ s.maxMemorySize
      rw [hsub]
      exact le_trans (Nat.sub_le _ _) h.bounded
    · have hentered : s.accepted = s.dequeued ++ [x] ++ queue := by
        rw [h.entered, hqueue, append_assoc, singleton_append]
      exact hentered

/-- **The accounting.** The total is right after every action of a run, and with it everything else
in `Accounted`, exactly if at every push the moved-from object reports the size of the element and
the sum has not wrapped. -/
theorem accounting_iff (maxMemorySize : ℕ) (as : List (Action κ T)) :
    (∀ pre, pre <+: as → ∀ s : MemoryBlockingQueue κ T,
      runAll step (new maxMemorySize) pre = .ok s → s.Accounted) ↔
    Along step Exact (new maxMemorySize : MemoryBlockingQueue κ T) as := by
  refine along_iff_of_reached (A := fun _ _ ↦ True)
    (I := fun s : MemoryBlockingQueue κ T ↦ s.Accounted ∧ s.curMemorySize < sizeMod)
    (fun s h ↦ h.1) (fun s a s' h _ hexact hs ↦ h.1.step h.2 hexact hs) (fun s a h _ hnot ↦ ?_)
    ⟨accounted_new maxMemorySize, Nat.two_pow_pos 64⟩ (along_of_forall fun _ _ _ ↦ trivial)
  obtain ⟨x, hx, hwrong⟩ : ∃ x ∈ s.pushes a, ¬(memorySize (movedFrom x) = memorySize x ∧
      s.curMemorySize + memorySize x < sizeMod) := by
    by_contra hnone
    exact hnot fun x hx ↦ by_contra fun hwrong ↦ hnone ⟨x, hx, hwrong⟩
  obtain ⟨k, wakes, rfl, hcall, hwakes, hroom⟩ := exists_of_mem_pushes hx
  refine ⟨s.push k x wakes, ?_, not_accounted_push h.1 hroom hwrong⟩
  simp only [step, hcall]
  exact guarded_eq_ok.mpr ⟨hwakes, rfl⟩

/-- **First in, first out.** Even if the total is wrong, the elements leave in their order, once. -/
theorem first_in_first_out {maxMemorySize : ℕ} {as : List (Action κ T)}
    (hrun : runAll step (new maxMemorySize) as = .ok s) : s.accepted = s.dequeued ++ s.queue := by
  refine runAll_invariant (I := fun s ↦ s.accepted = s.dequeued ++ s.queue)
    (fun s a s' h hs ↦ ?_) rfl hrun
  cases step_cases hs with
  | refuse k x hlarge => simpa [accepted] using h
  | push k x wakes hcall hroom hwakes =>
    have hpush : s.accepted ++ [x] = s.dequeued ++ (s.queue ++ [x]) := by
      rw [h, append_assoc]
    simpa [accepted] using hpush
  | pop k wakes x queue hcall hqueue hwakes =>
    rw [hqueue] at h
    simpa [accepted] using h
  | _ => exact h

/-! ## Two kinds of elements -/

/-- An element with a plain field for its size, which a move copies. -/
structure Record where
  size : Fin 16
  deriving DecidableEq, Repr

instance : MemorySized Record where
  memorySize x := x.size
  memorySize_lt x := lt_trans x.size.isLt (by decide)
  movedFrom x := x

/-- An element that owns its memory, as a string does. A move leaves nothing behind. -/
structure Text where
  size : Fin 16
  deriving DecidableEq, Repr

instance : MemorySized Text where
  memorySize x := x.size
  memorySize_lt x := lt_trans x.size.isLt (by decide)
  movedFrom x := ⟨⟨0, x.size.pos⟩⟩

/-- A record of six bytes goes in and out. -/
theorem accounting_iff_record :
    (∀ pre, pre <+: [.enqueue 0 ⟨6⟩, .push 0 none, .dequeue 1, .pop 1 none] →
      ∀ s : MemoryBlockingQueue (Fin 2) Record, runAll step (new 10) pre = .ok s → s.Accounted) :=
  (accounting_iff 10 _).mpr (by decide +kernel)

/-- Two texts of six bytes each enter a queue for ten bytes, and taking the first one out wraps the
total. -/
theorem not_accounted_text :
    ∃ s : MemoryBlockingQueue (Fin 2) Text,
      runAll step (new 10) [.enqueue 0 ⟨6⟩, .push 0 none, .enqueue 0 ⟨6⟩, .push 0 none,
        .dequeue 1, .pop 1 none] = .ok s ∧
      s.queue = [⟨6⟩] ∧ s.curMemorySize = 2 ^ 64 - 6 ∧ ¬s.Accounted := by
  refine exists_ok_of_map (fun s ↦ (s.queue, s.curMemorySize)) ([⟨6⟩], 2 ^ 64 - 6)
    (by decide +kernel) fun s hs hobserved ↦ ?_
  obtain ⟨hqueue, hcur⟩ := Prod.mk.inj hobserved
  refine ⟨hqueue, hcur, fun h ↦ ?_⟩
  have htotal : s.curMemorySize = memoryOf s.queue := h.total
  rw [hqueue, hcur] at htotal
  exact absurd htotal (by decide)

theorem first_in_first_out_text :
    ∃ s : MemoryBlockingQueue (Fin 2) Text,
      runAll step (new 10) [.enqueue 0 ⟨6⟩, .push 0 none, .enqueue 0 ⟨7⟩, .push 0 none,
        .dequeue 1, .pop 1 none] = .ok s ∧
      s.dequeued = [⟨6⟩] ∧ s.accepted = s.dequeued ++ s.queue :=
  exists_ok_of_map (fun s ↦ s.dequeued) [⟨6⟩] (by decide +kernel)
    fun _ hs hdequeued ↦ ⟨hdequeued, first_in_first_out hs⟩

end MemoryBlockingQueue

end Fishnet
