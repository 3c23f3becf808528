import Fishnet.Base.AsyncLogging

/-!
# The stream of log lines

Wherever the two threads are, the bytes that were written, the buffers waiting to be written, the
full buffers and the current buffer are, in this order, the lines in the order of their `append`
calls. A round that finds too many buffers breaks this, and says so in the log.

## The argument

`Move` lists what an action can do to the state, once. Three invariants are read off it.

* `Pointers`: which of the buffers that circulate are there and empty. The delicate one is
  `newBuffer2`: it is given away when `nextBuffer_` has been used up. Then `append` has filled a
  buffer, so two buffers are collected and two can be taken back.
* `Stream`: what was written and is about to be written is what the rounds let through.
* `Blocks`: every buffer holds whole lines, and the buffers hold them in order.

## Main results

* `AsyncLogging.no_fault`: no assertion of `threadFunc` fails.
* `AsyncLogging.log_stream`: the stream.
-/

namespace Fishnet

open List

namespace LoggingPc

/-- Between the critical section and the end of the round. -/
def isBusy : LoggingPc → Bool
  | .collected | .writing => true
  | _ => false

/-- Between the beginning of a round and the critical section. -/
def isReady : LoggingPc → Bool
  | .testing | .entering | .waiting => true
  | _ => false

end LoggingPc

/-- What a round writes: all it collected, or a notice and the first two buffers. -/
def Round.emit (r : Round) : Bytes :=
  if 25 < r.buffers.length then
    dropNotice r.stamp (r.buffers.length - 2) ++ (r.buffers.take 2).flatten
  else r.buffers.flatten

namespace AsyncLogging

variable {size : ℕ} {s s' : AsyncLogging size}

/-! ## What an action can do -/

theorem enter_eq_ok (h : s.enter = .ok s') :
    s' = { s with
      pc := .testing, newBuffer1 := some .new, newBuffer2 := some .new, buffersToWrite := [] } := by
  obtain ⟨-, hs⟩ := assert_bind_eq_ok.mp h
  exact (Except.ok.inj hs).symm

theorem test_eq_ok (h : s.test = .ok s') :
    (s.running = true ∧ s' = { s with pc := .entering }) ∨
      (s.running = false ∧ s' = { s with pc := .exited }) := by
  unfold test at h
  split_ifs at h with hrunning
  · obtain ⟨-, h⟩ := assert_bind_eq_ok.mp h
    obtain ⟨-, h⟩ := assert_bind_eq_ok.mp h
    obtain ⟨-, h⟩ := assert_bind_eq_ok.mp h
    exact .inl ⟨hrunning, (Except.ok.inj h).symm⟩
  · exact .inr ⟨Bool.not_eq_true _ ▸ hrunning, (Except.ok.inj h).symm⟩

theorem collect_eq_ok (h : s.collect = .ok s') :
    ∃ fresh, s.newBuffer1 = some fresh ∧ s' = s.collectWith fresh := by
  unfold collect at h
  split at h
  · cases h
  · exact ⟨_, ‹_›, (Except.ok.inj h).symm⟩

theorem checkOverload_eq_ok {stamp : String} (h : s.checkOverload stamp = .ok s') :
    s' = s.checked stamp := by
  obtain ⟨-, hs⟩ := assert_bind_eq_ok.mp h
  exact (Except.ok.inj hs).symm

theorem write_eq_ok (h : s.write = .ok s') :
    ∃ buffer, s.buffersToWrite[s.written]? = some buffer ∧
      s' = { s with output := s.output ++ buffer.data, written := s.written + 1 } := by
  unfold write at h
  split at h
  · cases h
  · exact ⟨_, ‹_›, (Except.ok.inj h).symm⟩

/-- A pointer that is empty or points to an empty buffer points to an empty buffer afterwards. -/
theorem isFresh_of_refill {b b' : Option (FixedBuffer size)} {v v' : List (FixedBuffer size)}
    (hb : b = none ∨ IsFresh b) (h : refill b v = .ok (b', v')) : IsFresh b' := by
  cases b with
  | some b =>
    cases h
    exact hb.resolve_left (Option.some_ne_none b)
  | none =>
    cases hlast : v.getLast? with
    | none =>
      simp only [refill, hlast] at h
      cases h
    | some last =>
      simp only [refill, hlast] at h
      cases h
      rfl

theorem recycle_eq_ok (h : s.recycle = .ok s') :
    ∃ b₁ b₂ v v' v'', refill s.newBuffer1 v = .ok (b₁, v') ∧
      refill s.newBuffer2 v' = .ok (b₂, v'') ∧ s' = { s with
        newBuffer1 := b₁, newBuffer2 := b₂, buffersToWrite := [], written := 0,
        pc := .testing } := by
  obtain ⟨⟨b₁, v'⟩, h₁, h⟩ := bind_eq_ok.mp h
  obtain ⟨⟨b₂, v''⟩, h₂, h⟩ := bind_eq_ok.mp h
  exact ⟨b₁, b₂, _, v', v'', h₁, h₂, (Except.ok.inj h).symm⟩

/-- What an action can do. -/
inductive Move (s : AsyncLogging size) : Action → AsyncLogging size → Prop
  | append (line : Bytes) : Move s (.append line) (s.append line)
  | start (hpc : s.pc = .created) : Move s .start { s with running := true, pc := .starting }
  | stop (hpc : s.pc ≠ .created ∧ s.pc ≠ .starting) : Move s .stop { s with running := false }
  | enter (hpc : s.pc = .starting) :
    Move s .enter
      { s with
        pc := .testing, newBuffer1 := some .new, newBuffer2 := some .new, buffersToWrite := [] }
  | goOn (hpc : s.pc = .testing) (hrunning : s.running = true) :
    Move s .test { s with pc := .entering }
  | exit (hpc : s.pc = .testing) (hrunning : s.running = false) :
    Move s .test { s with pc := .exited }
  | wait (hpc : s.pc = .entering) : Move s .lock { s with pc := .waiting }
  | collect (a : Action) (hpc : s.pc = .entering ∨ s.pc = .waiting) (fresh : FixedBuffer size)
    (hfresh : s.newBuffer1 = some fresh) : Move s a (s.collectWith fresh)
  | checkOverload (stamp : String) (hpc : s.pc = .collected) :
    Move s (.checkOverload stamp) (s.checked stamp)
  | write (hpc : s.pc = .writing) (buffer : FixedBuffer size)
    (hbuffer : s.buffersToWrite[s.written]? = some buffer) :
    Move s .write { s with output := s.output ++ buffer.data, written := s.written + 1 }
  | recycle (hpc : s.pc = .writing) (hwritten : s.written = s.buffersToWrite.length)
    (b₁ b₂ : Option (FixedBuffer size)) (v v' v'' : List (FixedBuffer size))
    (h₁ : refill s.newBuffer1 v = .ok (b₁, v')) (h₂ : refill s.newBuffer2 v' = .ok (b₂, v'')) :
    Move s .recycle
      { s with
        newBuffer1 := b₁, newBuffer2 := b₂, buffersToWrite := [], written := 0, pc := .testing }

theorem move_of_step {a : Action} (h : s.step a = .ok s') : Move s a s' := by
  cases a with
  | append line =>
    obtain ⟨-, rfl⟩ := guarded_eq_ok.mp h
    exact .append line
  | start =>
    obtain ⟨hpc, rfl⟩ := guarded_eq_ok.mp h
    exact .start hpc
  | stop =>
    obtain ⟨hpc, rfl⟩ := guarded_eq_ok.mp h
    exact .stop hpc
  | enter =>
    obtain ⟨hpc, h⟩ := attempt_eq_ok.mp h
    rw [enter_eq_ok h]
    exact .enter hpc
  | test =>
    obtain ⟨hpc, h⟩ := attempt_eq_ok.mp h
    obtain ⟨hrunning, rfl⟩ | ⟨hrunning, rfl⟩ := test_eq_ok h
    · exact .goOn hpc hrunning
    · exact .exit hpc hrunning
  | lock =>
    obtain ⟨hpc, h⟩ := attempt_eq_ok.mp h
    unfold AsyncLogging.lock at h
    split_ifs at h
    · cases h
      exact .wait hpc
    · obtain ⟨fresh, hfresh, rfl⟩ := collect_eq_ok h
      exact .collect _ (.inl hpc) fresh hfresh
  | wake =>
    obtain ⟨hpc, h⟩ := attempt_eq_ok.mp h
    obtain ⟨fresh, hfresh, rfl⟩ := collect_eq_ok h
    exact .collect _ (.inr hpc) fresh hfresh
  | checkOverload stamp =>
    obtain ⟨hpc, h⟩ := attempt_eq_ok.mp h
    rw [checkOverload_eq_ok h]
    exact .checkOverload stamp hpc
  | write =>
    obtain ⟨⟨hpc, -⟩, h⟩ := attempt_eq_ok.mp h
    obtain ⟨buffer, hbuffer, rfl⟩ := write_eq_ok h
    exact .write hpc buffer hbuffer
  | recycle =>
    obtain ⟨⟨hpc, hwritten⟩, h⟩ := attempt_eq_ok.mp h
    obtain ⟨b₁, b₂, v, v', v'', h₁, h₂, rfl⟩ := recycle_eq_ok h
    exact .recycle hpc hwritten b₁ b₂ v v' v'' h₁ h₂

/-! ## The buffers that circulate -/

structure Pointers (s : AsyncLogging size) : Prop where
  /-- `nextBuffer_` has been used up only if `append` filled a buffer since the last round. -/
  next : s.nextBuffer = none → s.buffers ≠ []
  next_data : ∀ b, s.nextBuffer = some b → b.data = []
  starting : s.pc = .starting → s.running = true
  idle : s.pc.isBusy = false → s.buffersToWrite = []
  ready : s.pc.isReady → IsFresh s.newBuffer1 ∧ IsFresh s.newBuffer2
  busy : s.pc.isBusy → s.newBuffer1 = none ∧ s.buffersToWrite ≠ [] ∧
    (IsFresh s.newBuffer2 ∨ s.newBuffer2 = none ∧ 2 ≤ s.buffersToWrite.length)
  collected : s.pc = .collected → s.written = 0
  written : s.written ≤ s.buffersToWrite.length

theorem pointers_new : Pointers (new : AsyncLogging size) where
  next h := absurd h (Option.some_ne_none _)
  next_data b h := by
    rw [← Option.some.inj h]
    rfl
  starting h := by cases h
  idle _ := rfl
  ready h := by cases h
  busy h := by cases h
  collected h := by cases h
  written := le_rfl

theorem Pointers.append (h : Pointers s) (line : Bytes) : Pointers (s.append line) := by
  unfold AsyncLogging.append
  split_ifs
  · exact ⟨h.next, h.next_data, h.starting, h.idle, h.ready, h.busy, h.collected, h.written⟩
  · refine ⟨fun _ ↦ ?_, fun b hb ↦ ?_, h.starting, h.idle, h.ready, h.busy, h.collected, h.written⟩
    · exact append_ne_nil_of_right_ne_nil _ (cons_ne_nil _ _)
    · cases hb

/-- The thread moves on and leaves the buffers alone. -/
theorem Pointers.move (h : Pointers s) {pc : LoggingPc} (hbusy : pc.isBusy = s.pc.isBusy)
    (hready : pc.isReady → s.pc.isReady) (hstarting : pc ≠ .starting)
    (hcollected : pc ≠ .collected) :
    Pointers { s with pc := pc } where
  next := h.next
  next_data := h.next_data
  starting hpc := absurd hpc hstarting
  idle hpc := h.idle (hbusy ▸ hpc)
  ready hpc := h.ready (hready hpc)
  busy hpc := h.busy (hbusy ▸ hpc)
  collected hpc := absurd hpc hcollected
  written := h.written

theorem Pointers.collectWith (h : Pointers s) (hready : s.pc.isReady) (fresh : FixedBuffer size) :
    Pointers (s.collectWith fresh) := by
  obtain ⟨-, hfresh⟩ := h.ready hready
  obtain ⟨b₂, hb₂, hdata⟩ := Option.map_eq_some_iff.mp hfresh
  have hlength : (s.buffers ++ [s.currentBuffer]).length = s.buffers.length + 1 :=
    length_append
  refine ⟨fun hnone ↦ ?_, fun b hb ↦ ?_, fun hpc ↦ ?_, fun hpc ↦ ?_, fun hpc ↦ ?_,
    fun _ ↦ ⟨rfl, ?_, ?_⟩, fun _ ↦ rfl, Nat.zero_le _⟩
  · -- the pointer is set, from `newBuffer2` if need be
    change (if s.nextBuffer = none then s.newBuffer2 else s.nextBuffer) = none at hnone
    split_ifs at hnone with hnext
    · rw [hb₂] at hnone
      cases hnone
    · exact absurd hnone hnext
  · change (if s.nextBuffer = none then s.newBuffer2 else s.nextBuffer) = some b at hb
    split_ifs at hb with hnext
    · rw [hb₂] at hb
      rw [← Option.some.inj hb, hdata]
    · exact h.next_data b hb
  · cases hpc
  · cases hpc
  · cases hpc
  · exact append_ne_nil_of_right_ne_nil _ (cons_ne_nil _ _)
  · change IsFresh (if s.nextBuffer = none then none else s.newBuffer2) ∨
      (if s.nextBuffer = none then none else s.newBuffer2) = none ∧
        2 ≤ (s.buffers ++ [s.currentBuffer]).length
    split_ifs with hnext
    · have hpos := length_pos_iff.mpr (h.next hnext)
      exact .inr ⟨rfl, by omega⟩
    · exact .inl hfresh

/-- At least two buffers are left of more than 25. -/
theorem length_checked (s : AsyncLogging size) (stamp : String) (hne : s.buffersToWrite ≠ []) :
    (s.checked stamp).buffersToWrite ≠ [] ∧
      (2 ≤ s.buffersToWrite.length → 2 ≤ (s.checked stamp).buffersToWrite.length) := by
  change (if _ then _ else _) ≠ [] ∧ (_ → 2 ≤ (if _ then _ else _ : List _).length)
  split_ifs with hoverload
  · have hlength : (s.buffersToWrite.take 2).length = 2 := by
      rw [length_take]
      omega
    exact ⟨ne_nil_of_length_pos (by omega), fun _ ↦ hlength.ge⟩
  · exact ⟨hne, id⟩

theorem Pointers.checked (h : Pointers s) (hpc : s.pc = .collected) (stamp : String) :
    Pointers (s.checked stamp) := by
  obtain ⟨hnone, hne, hfresh⟩ := h.busy (by rw [hpc]; rfl)
  have hwritten := h.collected hpc
  obtain ⟨hne', hlength⟩ := s.length_checked stamp hne
  refine ⟨h.next, h.next_data, fun hpc ↦ ?_, fun hpc ↦ ?_, fun hpc ↦ ?_,
    fun _ ↦ ⟨hnone, hne', hfresh.imp_right fun h ↦ ⟨h.1, hlength h.2⟩⟩, fun _ ↦ hwritten,
    hwritten.trans_le (Nat.zero_le _)⟩ <;> cases hpc

theorem Pointers.step (h : Pointers s) {a : Action} (hs : s.step a = .ok s') : Pointers s' := by
  cases move_of_step hs with
  | append line => exact h.append line
  | start hpc =>
    have hidle := h.idle (by rw [hpc]; rfl)
    refine ⟨h.next, h.next_data, fun _ ↦ rfl, fun _ ↦ hidle, fun hpc ↦ ?_, fun hpc ↦ ?_,
      fun hpc ↦ ?_, h.written⟩ <;> cases hpc
  | stop hpc =>
    exact ⟨h.next, h.next_data, fun hstarting ↦ absurd hstarting hpc.2, h.idle, h.ready, h.busy,
      h.collected, h.written⟩
  | enter hpc =>
    have hwritten := h.written
    rw [h.idle (by rw [hpc]; rfl)] at hwritten
    refine ⟨h.next, h.next_data, fun hpc ↦ ?_, fun _ ↦ rfl, fun _ ↦ ⟨rfl, rfl⟩, fun hpc ↦ ?_,
      fun hpc ↦ ?_, hwritten⟩ <;> cases hpc
  | goOn hpc hrunning =>
    exact h.move (by rw [hpc]; rfl) (by rw [hpc]; exact fun _ ↦ rfl) (by decide) (by decide)
  | exit hpc hrunning =>
    exact h.move (by rw [hpc]; rfl) (by rw [hpc]; exact fun _ ↦ rfl) (by decide) (by decide)
  | wait hpc =>
    exact h.move (by rw [hpc]; rfl) (by rw [hpc]; exact fun _ ↦ rfl) (by decide) (by decide)
  | collect a hpc fresh hfresh =>
    refine h.collectWith ?_ fresh
    rcases hpc with hpc | hpc <;> rw [hpc] <;> rfl
  | checkOverload stamp hpc => exact h.checked hpc stamp
  | write hpc buffer hbuffer =>
    obtain ⟨hlt, -⟩ := List.getElem?_eq_some_iff.mp hbuffer
    refine ⟨h.next, h.next_data, h.starting, h.idle, h.ready, h.busy, fun hcollected ↦ ?_, hlt⟩
    rw [hpc] at hcollected
    cases hcollected
  | recycle hpc hwritten b₁ b₂ v v' v'' h₁ h₂ =>
    obtain ⟨hnone, -, hfresh⟩ := h.busy (by rw [hpc]; rfl)
    have hfresh₁ := isFresh_of_refill (.inl hnone) h₁
    have hfresh₂ := isFresh_of_refill (hfresh.symm.imp_left And.left) h₂
    refine ⟨h.next, h.next_data, fun hpc ↦ ?_, fun _ ↦ rfl, fun _ ↦ ⟨hfresh₁, hfresh₂⟩,
      fun hpc ↦ ?_, fun hpc ↦ ?_, le_rfl⟩ <;> cases hpc

theorem pointers_run {actions : List Action}
    (h : runAll step (new : AsyncLogging size) actions = .ok s) : Pointers s :=
  runAll_invariant (fun _ _ _ hinv hs ↦ hinv.step hs) pointers_new h

/-! ## No assertion fails -/

theorem refill_of_isFresh {b : Option (FixedBuffer size)} (hb : IsFresh b)
    (v : List (FixedBuffer size)) : refill b v = .ok (b, v) := by
  obtain ⟨b', rfl, -⟩ := Option.map_eq_some_iff.mp hb
  rfl

theorem refill_none {v : List (FixedBuffer size)} (hv : v ≠ []) :
    refill none v = .ok (some (v.getLast hv).reset, v.dropLast) := by
  simp only [refill, getLast?_eq_some_getLast hv]

section

variable (h : Pointers s)
include h

/-- Two buffers are kept of two or more, so that both pointers can be set again. -/
theorem Pointers.recycle_ok (hpc : s.pc = .writing) : ∃ s', s.recycle = .ok s' := by
  obtain ⟨hnone, hne, hfresh⟩ := h.busy (by rw [hpc]; rfl)
  have hpos := length_pos_iff.mpr hne
  obtain ⟨kept, hkept⟩ : ∃ kept, kept =
    if 2 < s.buffersToWrite.length then s.buffersToWrite.take 2 else s.buffersToWrite := ⟨_, rfl⟩
  have hlength : kept.length = min 2 s.buffersToWrite.length := by
    rw [hkept]
    split_ifs with h2
    · rw [length_take]
    · omega
  have hkept_ne : kept ≠ [] := ne_nil_of_length_pos (by omega)
  rw [recycle, ← hkept, hnone, refill_none hkept_ne, ok_bind]
  rcases hfresh with hfresh | ⟨hnone₂, htwo⟩
  · simp only [refill_of_isFresh hfresh, ok_bind]
    exact ⟨_, rfl⟩
  · have hrest : kept.dropLast ≠ [] := by
      refine ne_nil_of_length_pos ?_
      rw [length_dropLast]
      omega
    simp only [hnone₂, refill_none hrest, ok_bind]
    exact ⟨_, rfl⟩

theorem Pointers.collect_ok (hready : s.pc.isReady) : ∃ s', s.collect = .ok s' := by
  obtain ⟨fresh, hfresh, -⟩ := Option.map_eq_some_iff.mp (h.ready hready).1
  exact ⟨s.collectWith fresh, by rw [AsyncLogging.collect, hfresh]⟩

theorem Pointers.test_ok (hpc : s.pc = .testing) : ∃ s', s.test = .ok s' := by
  obtain ⟨h₁, h₂⟩ := h.ready (by rw [hpc]; rfl)
  have hidle := h.idle (by rw [hpc]; rfl)
  rw [AsyncLogging.test, assert_bind_of h₁, assert_bind_of h₂, assert_bind_of hidle]
  split_ifs
  · exact ⟨_, rfl⟩
  · exact ⟨_, rfl⟩

theorem Pointers.enter_ok (hpc : s.pc = .starting) : ∃ s', s.enter = .ok s' :=
  ⟨_, assert_bind_of (h.starting hpc) _⟩

theorem Pointers.lock_ok (hpc : s.pc = .entering) : ∃ s', s.lock = .ok s' := by
  rw [AsyncLogging.lock]
  split_ifs
  · exact ⟨_, rfl⟩
  · exact h.collect_ok (by rw [hpc]; rfl)

theorem Pointers.checkOverload_ok (hpc : s.pc = .collected) (stamp : String) :
    ∃ s', s.checkOverload stamp = .ok s' := by
  obtain ⟨-, hne, -⟩ := h.busy (by rw [hpc]; rfl)
  exact ⟨_, assert_bind_of hne _⟩

end

theorem write_ok (h : s.written < s.buffersToWrite.length) : ∃ s', s.write = .ok s' := by
  rw [AsyncLogging.write, getElem?_eq_getElem h]
  exact ⟨_, rfl⟩

theorem Pointers.step_ne_fault (h : Pointers s) (a : Action) (f : Fault) :
    s.step a ≠ .error (.fault f) := by
  cases a with
  | append line | start | stop => exact guarded_ne_fault f
  | enter => exact attempt_ne_fault h.enter_ok f
  | test => exact attempt_ne_fault h.test_ok f
  | lock => exact attempt_ne_fault h.lock_ok f
  | wake => exact attempt_ne_fault (fun hpc ↦ h.collect_ok (by rw [hpc]; rfl)) f
  | checkOverload stamp => exact attempt_ne_fault (fun hpc ↦ h.checkOverload_ok hpc stamp) f
  | write => exact attempt_ne_fault (fun hpc ↦ write_ok hpc.2) f
  | recycle => exact attempt_ne_fault (fun hpc ↦ h.recycle_ok hpc.1) f

/-- **No assertion of `threadFunc` fails**, and no null pointer is used. -/
theorem no_fault (actions : List Action) (f : Fault) :
    runAll step (new : AsyncLogging size) actions ≠ .error (.fault f) :=
  runAll_ne_fault (fun _ _ _ hinv hs ↦ Pointers.step hinv hs)
    (fun _ a hinv ↦ hinv.step_ne_fault a f)
    pointers_new actions

/-! ## What is written -/

/-- What has been collected in a round that has not looked at the number of buffers yet. -/
def justCollected (s : AsyncLogging size) : List Bytes :=
  if s.pc = .collected then s.buffersToWrite.map FixedBuffer.data else []

/-- The not yet written buffers of `buffersToWrite`. -/
def unwritten (s : AsyncLogging size) : List Bytes :=
  (s.buffersToWrite.drop s.written).map FixedBuffer.data

def Stream (s : AsyncLogging size) : Prop :=
  s.output ++ s.unwritten.flatten = s.rounds.flatMap Round.emit ++ s.justCollected.flatten

theorem justCollected_eq_nil (h : s.pc ≠ .collected) : s.justCollected = [] := if_neg h

theorem unwritten_eq_nil (h : s.buffersToWrite = []) : s.unwritten = [] := by
  rw [unwritten, h, drop_nil]
  rfl

theorem Stream.congr (h : Stream s) (houtput : s'.output = s.output)
    (hunwritten : s'.unwritten = s.unwritten) (hrounds : s'.rounds = s.rounds)
    (hcollected : s'.justCollected = s.justCollected) : Stream s' := by
  rw [Stream, houtput, hunwritten, hrounds, hcollected]
  exact h

theorem Stream.checked (h : Stream s) (hptr : Pointers s) (hpc : s.pc = .collected)
    (stamp : String) : Stream (s.checked stamp) := by
  have hwritten := hptr.collected hpc
  have hcollected : s.justCollected = s.unwritten := by
    rw [justCollected, if_pos hpc, unwritten, hwritten, drop_zero]
  rw [Stream, hcollected, append_cancel_right_eq] at h
  have hrounds : (s.checked stamp).rounds.flatMap Round.emit =
      s.output ++ Round.emit ⟨s.buffersToWrite.map FixedBuffer.data, stamp⟩ := by
    rw [h, AsyncLogging.checked, flatMap_append, flatMap_singleton]
  rw [Stream, justCollected_eq_nil (by simp [AsyncLogging.checked]), hrounds, flatten_nil,
    append_nil, Round.emit, length_map, unwritten]
  unfold AsyncLogging.checked
  split_ifs
  · simp [hwritten, map_take]
  · simp [hwritten]

theorem Stream.step (h : Stream s) (hptr : Pointers s) {a : Action} (hs : s.step a = .ok s') :
    Stream s' := by
  -- outside a round nothing waits to be written
  have hidle (hpc : s.pc.isBusy = false) : s.unwritten = [] ∧ s.justCollected = [] := by
    refine ⟨unwritten_eq_nil (hptr.idle hpc), justCollected_eq_nil fun hcollected ↦ ?_⟩
    rw [hcollected] at hpc
    cases hpc
  cases move_of_step hs with
  | append line =>
    unfold AsyncLogging.append
    split_ifs <;> exact h.congr rfl rfl rfl rfl
  | stop hpc => exact h.congr rfl rfl rfl rfl
  | start hpc | goOn hpc hrunning | exit hpc hrunning | wait hpc =>
    obtain ⟨-, hcollected⟩ := hidle (by rw [hpc]; rfl)
    refine h.congr rfl rfl rfl ?_
    rw [hcollected]
    rfl
  | enter hpc =>
    obtain ⟨hunwritten, hcollected⟩ := hidle (by rw [hpc]; rfl)
    refine h.congr rfl ?_ rfl ?_
    · rw [hunwritten]
      exact unwritten_eq_nil rfl
    · rw [hcollected]
      rfl
  | collect a hpc fresh hfresh =>
    obtain ⟨hunwritten, hcollected⟩ := hidle (by rcases hpc with hpc | hpc <;> rw [hpc] <;> rfl)
    rw [Stream, hunwritten, hcollected, append_cancel_right_eq] at h
    exact congrArg (· ++ _) h
  | checkOverload stamp hpc => exact h.checked hptr hpc stamp
  | write hpc buffer hbuffer =>
    obtain ⟨hlt, hget⟩ := List.getElem?_eq_some_iff.mp hbuffer
    have hunwritten : s.unwritten = buffer.data ::
        (s.buffersToWrite.drop (s.written + 1)).map FixedBuffer.data := by
      rw [unwritten, drop_eq_getElem_cons hlt, hget]
      rfl
    rw [Stream, hunwritten, flatten_cons, ← append_assoc] at h
    exact h
  | recycle hpc hwritten b₁ b₂ v v' v'' h₁ h₂ =>
    have hunwritten : s.unwritten = [] := by
      rw [unwritten, hwritten, drop_length]
      rfl
    have hcollected : s.justCollected = [] := justCollected_eq_nil (by rw [hpc]; decide)
    refine h.congr rfl ?_ rfl ?_
    · rw [hunwritten]
      exact unwritten_eq_nil rfl
    · rw [hcollected]
      rfl

/-! ## Whole lines -/

/-- The buffers that have been collected so far. -/
def taken (s : AsyncLogging size) : List Bytes :=
  s.rounds.flatMap Round.buffers ++ s.justCollected

/-- The lines can be cut into blocks, one for each buffer: `full` for the buffers that `append` is
done with, `current` for the current one. -/
def Blocks (s : AsyncLogging size) : Prop :=
  ∃ (full : List (List Bytes)) (current : List Bytes),
    full.flatten ++ current = s.lines ∧
    full.map List.flatten = s.taken ++ s.buffers.map FixedBuffer.data ∧
    current.flatten = s.currentBuffer.data

theorem blocks_new : Blocks (new : AsyncLogging size) := ⟨[], [], rfl, rfl, rfl⟩

theorem Blocks.congr (h : Blocks s) (hlines : s'.lines = s.lines) (htaken : s'.taken = s.taken)
    (hbuffers : s'.buffers = s.buffers) (hcurrent : s'.currentBuffer = s.currentBuffer) :
    Blocks s' := by
  rw [Blocks, hlines, htaken, hbuffers, hcurrent]
  exact h

theorem Blocks.append (h : Blocks s) (hptr : Pointers s) {line : Bytes}
    (hline : line.length < size) : Blocks (s.append line) := by
  obtain ⟨full, current, hlines, hfull, hcurrent⟩ := h
  unfold AsyncLogging.append
  split_ifs with hfits
  · refine ⟨full, current ++ [line], ?_, hfull, ?_⟩
    · rw [← append_assoc, hlines]
    · rw [flatten_append, hcurrent, flatten_singleton, FixedBuffer.data_append _ hfits]
  · have hdata : (s.nextBuffer.getD .new).data = [] := by
      cases hnext : s.nextBuffer with
      | none => rfl
      | some b => exact hptr.next_data b hnext
    refine ⟨full ++ [current], [line], ?_, ?_, ?_⟩
    · rw [flatten_append, flatten_singleton, hlines]
    · change _ = s.taken ++ (s.buffers ++ [s.currentBuffer]).map FixedBuffer.data
      rw [map_append, hfull, map_append, append_assoc, map_singleton, hcurrent]
      rfl
    · rw [flatten_singleton, FixedBuffer.data_append, hdata, nil_append]
      rwa [FixedBuffer.avail_of_data_eq_nil hdata]

theorem taken_congr (hpc : s.pc ≠ .collected) (hpc' : s'.pc ≠ .collected)
    (hrounds : s'.rounds = s.rounds) : s'.taken = s.taken := by
  rw [taken, taken, justCollected_eq_nil hpc, justCollected_eq_nil hpc', hrounds]

theorem taken_checked (hpc : s.pc = .collected) (stamp : String) :
    (s.checked stamp).taken = s.taken := by
  rw [taken, taken, justCollected_eq_nil (by simp [AsyncLogging.checked]), justCollected,
    if_pos hpc, AsyncLogging.checked, flatMap_append, flatMap_singleton, append_nil]

theorem taken_collectWith (hpc : s.pc ≠ .collected) (fresh : FixedBuffer size) :
    (s.collectWith fresh).taken =
      s.taken ++ s.buffers.map FixedBuffer.data ++ [s.currentBuffer.data] := by
  rw [taken, taken, justCollected_eq_nil hpc, append_nil, append_assoc]
  change s.rounds.flatMap Round.buffers ++ (s.buffers ++ [s.currentBuffer]).map FixedBuffer.data = _
  rw [map_append]
  rfl

theorem Blocks.collectWith (h : Blocks s) (hptr : Pointers s) (hready : s.pc.isReady)
    (hidle : s.buffersToWrite = []) (hpc : s.pc ≠ .collected) {fresh : FixedBuffer size}
    (hfresh : s.newBuffer1 = some fresh) : Blocks (s.collectWith fresh) := by
  obtain ⟨full, current, hlines, hfull, hcurrent⟩ := h
  have hdata : fresh.data = [] := by
    have hfresh₁ := (hptr.ready hready).1
    rw [hfresh] at hfresh₁
    exact Option.some.inj hfresh₁
  refine ⟨full ++ [current], [], ?_, ?_, hdata.symm⟩
  · rw [flatten_append, flatten_singleton, append_nil]
    exact hlines
  · rw [taken_collectWith hpc, map_append, hfull, map_singleton, hcurrent]
    change _ = _ ++ s.buffersToWrite.map FixedBuffer.data
    rw [hidle, map_nil, append_nil]

/-- The line of an `append` is shorter than a buffer. -/
def Action.Short (size : ℕ) : Action → Prop
  | .append line => line.length < size
  | _ => True

instance Action.decidableShort (size : ℕ) : ∀ a : Action, Decidable (a.Short size)
  | .append line => inferInstanceAs (Decidable (line.length < size))
  | .start | .stop | .enter | .test | .lock | .wake | .checkOverload _ | .write | .recycle =>
    inferInstanceAs (Decidable True)

theorem Blocks.step (h : Blocks s) (hptr : Pointers s) {a : Action} (ha : a.Short size)
    (hs : s.step a = .ok s') : Blocks s' := by
  cases move_of_step hs with
  | append line => exact h.append hptr ha
  | stop hpc => exact h.congr rfl rfl rfl rfl
  | start hpc | enter hpc | goOn hpc hrunning | exit hpc hrunning | wait hpc =>
    exact h.congr rfl (taken_congr (by rw [hpc]; decide) (by simp) rfl) rfl rfl
  | collect a hpc fresh hfresh =>
    have hready : s.pc.isReady ∧ s.pc.isBusy = false ∧ s.pc ≠ .collected := by
      rcases hpc with hpc | hpc <;> rw [hpc] <;> decide
    obtain ⟨hready, hbusy, hcollected⟩ := hready
    exact h.collectWith hptr hready (hptr.idle hbusy) hcollected hfresh
  | checkOverload stamp hpc => exact h.congr rfl (taken_checked hpc stamp) rfl rfl
  | write hpc buffer hbuffer =>
    have hne : s.pc ≠ .collected := by rw [hpc]; decide
    exact h.congr rfl (taken_congr hne hne rfl) rfl rfl
  | recycle hpc hwritten b₁ b₂ v v' v'' h₁ h₂ =>
    exact h.congr rfl (taken_congr (by rw [hpc]; decide) (by simp) rfl) rfl rfl

/-! ## Whole runs -/

theorem stream_new : Stream (new : AsyncLogging size) := rfl

theorem stream_run {actions : List Action}
    (h : runAll step (new : AsyncLogging size) actions = .ok s) : Stream s :=
  (runAll_invariant (I := fun s ↦ Pointers s ∧ Stream s)
    (fun _ _ _ ⟨hptr, hstream⟩ hs ↦ ⟨hptr.step hs, hstream.step hptr hs⟩)
    ⟨pointers_new, stream_new⟩ h).2

theorem blocks_run {actions : List Action} (hshort : ∀ a ∈ actions, a.Short size)
    (h : runAll step (new : AsyncLogging size) actions = .ok s) : Blocks s :=
  (runAll_induct (I := fun s ↦ Pointers s ∧ Blocks s) (P := fun _ a ↦ a.Short size)
    (fun _ _ _ ⟨hptr, hblocks⟩ ha hs ↦ ⟨hptr.step hs, hblocks.step hptr ha hs⟩)
    ⟨pointers_new, blocks_new⟩ (along_of_forall fun _ a ha ↦ hshort a ha) h).2

/-- The content of the buffers that have not been collected. -/
def held (s : AsyncLogging size) : Bytes :=
  (s.buffers.map FixedBuffer.data).flatten ++ s.currentBuffer.data

theorem Blocks.flatten_lines (h : Blocks s) : s.lines.flatten = s.taken.flatten ++ s.held := by
  obtain ⟨full, current, hlines, hfull, hcurrent⟩ := h
  rw [← hlines, flatten_append, flatten_flatten, hfull, flatten_append, hcurrent,
    held, append_assoc]

/-- Without overload, what was written and what is about to be is what was collected. -/
theorem Stream.eq_taken (h : Stream s) (hfew : ∀ r ∈ s.rounds, r.buffers.length ≤ 25) :
    s.output ++ s.unwritten.flatten = s.taken.flatten := by
  have hemit : s.rounds.flatMap Round.emit = (s.rounds.flatMap Round.buffers).flatten := by
    rw [flatMap_def, flatMap_def, flatten_flatten, map_map]
    refine congrArg List.flatten (map_congr_left fun r hr ↦ ?_)
    exact if_neg (not_lt.mpr (hfew r hr))
  rw [h, hemit, taken, flatten_append]

/-- **The stream of log lines.** After any interleaving, the lines appended so far are cut into
blocks of whole lines, in order, one for each buffer: those that the rounds collected, then
`buffers_`, then `currentBuffer_`. The log file was given what the rounds let through: all of their
buffers, or a notice and the first two where there were more than 25. As long as no round finds more
than 25 buffers, the bytes written, the unwritten buffers, `buffers_` and `currentBuffer_` make up
the lines. -/
theorem log_stream {actions : List Action} {s : AsyncLogging size}
    (h : runAll step new actions = .ok s) (hshort : ∀ a ∈ actions, a.Short size) :
    (∃ blocks : List (List Bytes), blocks.flatten = s.lines ∧
      blocks.map List.flatten = s.rounds.flatMap Round.buffers ++ s.justCollected ++
        s.buffers.map FixedBuffer.data ++ [s.currentBuffer.data]) ∧
    s.output ++ s.unwritten.flatten = s.rounds.flatMap Round.emit ++ s.justCollected.flatten ∧
    ((∀ r ∈ s.rounds, r.buffers.length ≤ 25) →
      s.output ++ s.unwritten.flatten ++ (s.buffers.map FixedBuffer.data).flatten ++
        s.currentBuffer.data = s.lines.flatten) := by
  have hstream := stream_run h
  have hblocks := blocks_run hshort h
  refine ⟨?_, hstream, fun hfew ↦ ?_⟩
  · obtain ⟨full, current, hlines, hfull, hcurrent⟩ := hblocks
    refine ⟨full ++ [current], ?_, ?_⟩
    · rw [flatten_append, flatten_singleton, hlines]
    · rw [map_append, hfull, map_singleton, hcurrent, taken]
  · rw [hstream.eq_taken hfew, hblocks.flatten_lines, held, append_assoc]

/-- A round that collects one line while another is appended behind it. -/
def round : List Action :=
  [.start, .enter, .append [104, 10], .test, .lock, .wake, .append [105, 10], .checkOverload "",
    .write]

theorem log_stream_round : ∃ s : AsyncLogging kLargerBuffer, runAll step new round = .ok s ∧
    s.output = [104, 10] ∧ s.currentBuffer.data = [105, 10] ∧
    s.output ++ s.unwritten.flatten ++ (s.buffers.map FixedBuffer.data).flatten ++
      s.currentBuffer.data = s.lines.flatten :=
  ⟨_, rfl, rfl, rfl, (@log_stream kLargerBuffer round _ rfl (by decide)).2.2 (by decide)⟩

end AsyncLogging

end Fishnet
