import Fishnet.Base.AsyncLoggingStream

/-!
# The pointers of the asynchronous logger

`AsyncLogging` has a buffer where the source has a `std::unique_ptr` that is never null. Here every
pointer is one that can be null, in the vectors too, and a move leaves a null pointer behind. A null
pointer that is used is a fault, wherever the source uses it.

## The refinement

`embed` puts a pointer to each buffer of the model without null pointers. On the states that satisfy
`AsyncLogging.Pointers` each action of the one model is the same action of the other (`map_step`),
faults included, so the runs are the same, and what is known of `AsyncLogging` holds of the
pointers.

## Main results

* `PointerLogging.buffers_circulate`: no assertion fails, no null pointer is used, and where the
  buffers are whenever the lock is free and at the top of a round.
-/

namespace Fishnet

open List

/-- `AsyncLogging`, with the local variables of `threadFunc`. -/
structure PointerLogging (size : ℕ) where
  /-- `running_`. -/
  running : Bool
  /-- `currentBuffer_`. -/
  currentBuffer : Option (FixedBuffer size)
  /-- `nextBuffer_`. -/
  nextBuffer : Option (FixedBuffer size)
  /-- `buffers_`. -/
  buffers : List (Option (FixedBuffer size))
  pc : LoggingPc
  newBuffer1 : Option (FixedBuffer size)
  newBuffer2 : Option (FixedBuffer size)
  buffersToWrite : List (Option (FixedBuffer size))
  /-- The number of buffers that the loop over `buffersToWrite` has written. -/
  written : ℕ
  /-- What `LogFile::append` was given. -/
  output : Bytes
  deriving DecidableEq

namespace PointerLogging

open AsyncLogging (IsFresh Action)

variable {size : ℕ}

/-- `operator->` of a pointer. -/
def deref {α : Type} : Option α → Checked α
  | some a => .ok a
  | none => .error .badAccess

/-- A logger as constructed. -/
def new : PointerLogging size where
  running := false
  currentBuffer := some .new
  nextBuffer := some .new
  buffers := []
  pc := .created
  newBuffer1 := none
  newBuffer2 := none
  buffersToWrite := []
  written := 0
  output := []

section Steps

variable (s : PointerLogging size)

/-! ## The front end -/

/-- `currentBuffer_` is moved into `buffers_`. -/
def pushCurrent : PointerLogging size :=
  { s with buffers := s.buffers ++ [s.currentBuffer], currentBuffer := none }

/-- `currentBuffer_` is set again, from `nextBuffer_` or to a new buffer. -/
def replaceCurrent : PointerLogging size :=
  if s.nextBuffer ≠ none then { s with currentBuffer := s.nextBuffer, nextBuffer := none }
  else { s with currentBuffer := some .new }

/-- `currentBuffer_->append(logline, len)`. -/
def appendCurrent (line : Bytes) : Checked (PointerLogging size) := do
  let current ← deref s.currentBuffer
  .ok { s with currentBuffer := some (current.append line) }

def append (line : Bytes) : Checked (PointerLogging size) := do
  let current ← deref s.currentBuffer
  if line.length < current.avail then s.appendCurrent line
  else s.pushCurrent.replaceCurrent.appendCurrent line

/-! ## The back end -/

/-- The beginning of `threadFunc`. -/
def enter : Checked (PointerLogging size) := do
  assert (s.running = true)
  .ok { s with
    pc := .testing, newBuffer1 := some .new, newBuffer2 := some .new, buffersToWrite := [] }

/-- The condition of the `while` loop and the assertions behind it. -/
def test : Checked (PointerLogging size) :=
  if s.running then do
    assert (IsFresh s.newBuffer1)
    assert (IsFresh s.newBuffer2)
    assert (s.buffersToWrite = [])
    .ok { s with pc := .entering }
  else .ok { s with pc := .exited }

/-- `nextBuffer_` is set from `newBuffer2` if it is null. -/
def replaceNext : PointerLogging size :=
  if s.nextBuffer = none then { s with nextBuffer := s.newBuffer2, newBuffer2 := none } else s

/-- The critical section after the wait. -/
def collect : PointerLogging size :=
  let s := s.pushCurrent
  let s := { s with currentBuffer := s.newBuffer1, newBuffer1 := none }
  let s := { s with buffersToWrite := s.buffers, buffers := s.buffersToWrite }
  { s.replaceNext with written := 0, pc := .collected }

/-- The critical section up to the wait, or to its end if there is nothing to wait for. -/
def lock : PointerLogging size :=
  if s.buffers = [] then { s with pc := .waiting } else s.collect

/-- The test of the number of buffers. -/
def checkOverload (stamp : String) : Checked (PointerLogging size) := do
  assert (s.buffersToWrite ≠ [])
  if 25 < s.buffersToWrite.length then
    .ok { s with
      output := s.output ++ dropNotice stamp (s.buffersToWrite.length - 2)
      buffersToWrite := s.buffersToWrite.take 2
      pc := .writing }
  else .ok { s with pc := .writing }

/-- The loop over `buffersToWrite`, once. -/
def write : Checked (PointerLogging size) :=
  match s.buffersToWrite[s.written]? with
  | none => .error .badAccess
  | some pointer => do
    let buffer ← deref pointer
    .ok { s with output := s.output ++ buffer.data, written := s.written + 1 }

/-- A null pointer takes the last of the written buffers, which is moved and reset. -/
def refill (b : Option (FixedBuffer size)) (buffers : List (Option (FixedBuffer size))) :
    Checked (Option (FixedBuffer size) × List (Option (FixedBuffer size))) :=
  match b with
  | some b => .ok (some b, buffers)
  | none =>
    match buffers.getLast? with
    | none => .error .assertion
    | some back => do
      let last ← deref back
      .ok (some last.reset, buffers.dropLast)

/-- The end of a round. -/
def recycle : Checked (PointerLogging size) := do
  let kept := if 2 < s.buffersToWrite.length then s.buffersToWrite.take 2 else s.buffersToWrite
  let (newBuffer1, rest) ← refill s.newBuffer1 kept
  let (newBuffer2, _) ← refill s.newBuffer2 rest
  .ok { s with
    newBuffer1 := newBuffer1
    newBuffer2 := newBuffer2
    buffersToWrite := []
    written := 0
    pc := .testing }

/-- The actions of the two threads. -/
def step : Action → Except Halt (PointerLogging size)
  | .append line => attempt True (s.append line)
  | .start => guarded (s.pc = .created) { s with running := true, pc := .starting }
  | .stop => guarded (s.pc ≠ .created ∧ s.pc ≠ .starting) { s with running := false }
  | .enter => attempt (s.pc = .starting) s.enter
  | .test => attempt (s.pc = .testing) s.test
  | .lock => guarded (s.pc = .entering) s.lock
  | .wake => guarded (s.pc = .waiting) s.collect
  | .checkOverload stamp => attempt (s.pc = .collected) (s.checkOverload stamp)
  | .write => attempt (s.pc = .writing ∧ s.written < s.buffersToWrite.length) s.write
  | .recycle => attempt (s.pc = .writing ∧ s.written = s.buffersToWrite.length) s.recycle

end Steps

/-! ## The refinement -/

/-- A pointer to each buffer. -/
def embed (s : AsyncLogging size) : PointerLogging size where
  running := s.running
  currentBuffer := some s.currentBuffer
  nextBuffer := s.nextBuffer
  buffers := s.buffers.map some
  pc := s.pc
  newBuffer1 := s.newBuffer1
  newBuffer2 := s.newBuffer2
  buffersToWrite := s.buffersToWrite.map some
  written := s.written
  output := s.output

section Refinement

variable {s : AsyncLogging size}

theorem append_embed (s : AsyncLogging size) (line : Bytes) :
    (embed s).append line = .ok (embed (s.append line)) := by
  have hderef : deref (embed s).currentBuffer = .ok s.currentBuffer := rfl
  rw [append, hderef, ok_bind, AsyncLogging.append]
  split_ifs with hroom
  · rfl
  · -- the full buffer is moved, and the pointer is set again before it is used
    rw [appendCurrent, replaceCurrent]
    cases hnext : s.nextBuffer with
    | none =>
      rw [if_neg (not_not.2 (show (embed s).pushCurrent.nextBuffer = none from hnext))]
      simp [pushCurrent, embed, deref, hnext, ok_bind]
    | some next =>
      have hsome : (embed s).pushCurrent.nextBuffer = some next := hnext
      rw [if_pos (by rw [hsome]; exact Option.some_ne_none next)]
      simp [pushCurrent, embed, deref, hnext, ok_bind]

theorem test_embed (h : s.Pointers) (hpc : s.pc = .testing) :
    s.test.map embed = (embed s).test := by
  obtain ⟨h₁, h₂⟩ := h.ready (by rw [hpc]; rfl)
  have hidle := h.idle (by rw [hpc]; rfl)
  have hidle' : (embed s).buffersToWrite = [] := by rw [embed, hidle, map_nil]
  rw [AsyncLogging.test, test, assert_bind_of h₁, assert_bind_of h₂,
    assert_bind_of hidle, assert_bind_of (show IsFresh (embed s).newBuffer1 from h₁),
    assert_bind_of (show IsFresh (embed s).newBuffer2 from h₂), assert_bind_of hidle']
  change Except.map embed (if s.running = true then _ else _) = if s.running = true then _ else _
  split_ifs <;> rfl

theorem collect_embed (h : s.Pointers) (hready : s.pc.isReady) :
    s.collect.map embed = .ok (embed s).collect := by
  obtain ⟨fresh, hfresh, -⟩ := Option.map_eq_some_iff.mp (h.ready hready).1
  rw [AsyncLogging.collect, hfresh]
  refine congrArg Except.ok ?_
  cases hnext : s.nextBuffer with
  | none => simp [AsyncLogging.collectWith, collect, replaceNext, pushCurrent, embed, hnext, hfresh]
  | some next =>
    simp [AsyncLogging.collectWith, collect, replaceNext, pushCurrent, embed, hnext, hfresh]

theorem lock_embed (h : s.Pointers) (hpc : s.pc = .entering) :
    s.lock.map embed = .ok (embed s).lock := by
  have hempty : (embed s).buffers = [] ↔ s.buffers = [] := map_eq_nil_iff
  rw [AsyncLogging.lock, lock]
  by_cases hbuffers : s.buffers = []
  · rw [if_pos hbuffers, if_pos (hempty.2 hbuffers)]
    rfl
  · rw [if_neg hbuffers, if_neg (hempty.not.2 hbuffers)]
    exact collect_embed h (by rw [hpc]; rfl)

theorem checkOverload_embed (h : s.Pointers) (hpc : s.pc = .collected) (stamp : String) :
    (s.checkOverload stamp).map embed = (embed s).checkOverload stamp := by
  obtain ⟨-, hne, -⟩ := h.busy (by rw [hpc]; rfl)
  have hne' : (embed s).buffersToWrite ≠ [] := map_eq_nil_iff.not.2 hne
  have hlength : (embed s).buffersToWrite.length = s.buffersToWrite.length := length_map _
  rw [AsyncLogging.checkOverload, checkOverload, assert_bind_of hne, assert_bind_of hne',
    hlength]
  split_ifs with hover <;>
    simp [Except.map, AsyncLogging.checked, embed, hover, map_take]

theorem write_embed (s : AsyncLogging size) : s.write.map embed = (embed s).write := by
  have hget : (embed s).buffersToWrite[(embed s).written]? =
      s.buffersToWrite[s.written]?.map some := getElem?_map
  rw [AsyncLogging.write, write, hget]
  cases s.buffersToWrite[s.written]? <;> rfl

theorem refill_map_some (b : Option (FixedBuffer size)) (l : List (FixedBuffer size)) :
    refill b (l.map some) = (AsyncLogging.refill b l).map fun p ↦ (p.1, p.2.map some) := by
  cases b with
  | some b => rfl
  | none =>
    rw [refill, AsyncLogging.refill, getLast?_map]
    cases l.getLast? with
    | none => rfl
    | some last => simp [deref, Except.map, ok_bind, map_dropLast]

theorem recycle_embed (s : AsyncLogging size) : s.recycle.map embed = (embed s).recycle := by
  obtain ⟨kept, hkept⟩ : ∃ kept, kept =
    if 2 < s.buffersToWrite.length then s.buffersToWrite.take 2 else s.buffersToWrite := ⟨_, rfl⟩
  have hkept' : (if 2 < (embed s).buffersToWrite.length then (embed s).buffersToWrite.take 2
      else (embed s).buffersToWrite) = kept.map some := by
    rw [hkept, apply_ite (List.map some), map_take]
    simp only [embed, length_map]
  rw [recycle, AsyncLogging.recycle, ← hkept]
  simp only [hkept', refill_map_some]
  change Except.map embed (AsyncLogging.refill s.newBuffer1 kept >>= _) =
    (AsyncLogging.refill s.newBuffer1 kept).map _ >>= _
  cases AsyncLogging.refill s.newBuffer1 kept with
  | error e => rfl
  | ok p =>
    simp only [Except.map, ok_bind, refill_map_some]
    change Except.map embed (AsyncLogging.refill s.newBuffer2 p.2 >>= _) =
      (AsyncLogging.refill s.newBuffer2 p.2).map _ >>= _
    cases AsyncLogging.refill s.newBuffer2 p.2 <;> rfl

/-- **One action.** -/
theorem map_step (h : s.Pointers) (a : Action) : (s.step a).map embed = (embed s).step a := by
  have hlength : (embed s).buffersToWrite.length = s.buffersToWrite.length := length_map _
  cases a with
  | append line =>
    rw [step, append_embed]
    exact map_attempt (p := True) (x := .ok (s.append line)) fun _ ↦ rfl
  | start => exact map_attempt (p := s.pc = .created) fun _ ↦ rfl
  | stop => exact map_attempt (p := s.pc ≠ .created ∧ s.pc ≠ .starting) fun _ ↦ rfl
  | enter =>
    refine map_attempt (p := s.pc = .starting) fun hpc ↦ ?_
    rw [AsyncLogging.enter, enter, assert_bind_of (h.starting hpc),
      assert_bind_of (show (embed s).running = true from h.starting hpc)]
    rfl
  | test => exact map_attempt (p := s.pc = .testing) fun hpc ↦ test_embed h hpc
  | lock => exact map_attempt (p := s.pc = .entering) fun hpc ↦ lock_embed h hpc
  | wake => exact map_attempt (p := s.pc = .waiting) fun hpc ↦ collect_embed h (by rw [hpc]; rfl)
  | checkOverload stamp =>
    exact map_attempt (p := s.pc = .collected) fun hpc ↦ checkOverload_embed h hpc stamp
  | write =>
    rw [step, hlength]
    exact map_attempt fun _ ↦ write_embed s
  | recycle =>
    rw [step, hlength]
    exact map_attempt fun _ ↦ recycle_embed s

/-- **Whole runs.** -/
theorem runAll_embed (actions : List Action) :
    runAll step (new : PointerLogging size) actions =
      (runAll AsyncLogging.step (AsyncLogging.new : AsyncLogging size) actions).map embed :=
  (map_runAll (fun _ _ _ hinv hs ↦ hinv.step hs) (fun _ a hinv ↦ map_step hinv a)
    AsyncLogging.pointers_new actions).symm

end Refinement

/-! ## Where the buffers are -/

/-- **The buffers circulate.** However calls of `append` and the rounds of the back end are
interleaved, no assertion fails and no null pointer is used, to append to it or to write it.
Whenever the lock is free there is a current buffer, and `nextBuffer_` is null only if a full buffer
waits; at the top of a round the back end has its two empty buffers and nothing to write. No vector
holds a null pointer. -/
theorem buffers_circulate (actions : List Action) :
    (∀ f, runAll step (new : PointerLogging size) actions ≠ .error (.fault f)) ∧
    ∀ s, runAll step (new : PointerLogging size) actions = .ok s →
      s.currentBuffer ≠ none ∧ (s.nextBuffer = none → s.buffers ≠ []) ∧
      (s.pc = .testing →
        IsFresh s.newBuffer1 ∧ IsFresh s.newBuffer2 ∧ s.buffersToWrite = []) ∧
      none ∉ s.buffers ∧ none ∉ s.buffersToWrite := by
  rw [runAll_embed]
  refine ⟨fun f hfault ↦ ?_, fun s hs ↦ ?_⟩
  · exact AsyncLogging.no_fault actions f (map_eq_error.1 hfault)
  · obtain ⟨t, ht, rfl⟩ := map_eq_ok.1 hs
    have hinv := AsyncLogging.pointers_run ht
    have hmem : ∀ l : List (FixedBuffer size), none ∉ l.map some := by simp
    refine ⟨Option.some_ne_none _, fun hnext ↦ ?_, fun hpc ↦ ?_, hmem _, hmem _⟩
    · exact map_eq_nil_iff.not.2 (hinv.next hnext)
    · obtain ⟨h₁, h₂⟩ := hinv.ready (by rw [show t.pc = .testing from hpc]; rfl)
      exact ⟨h₁, h₂, map_eq_nil_iff.2 (hinv.idle (by rw [show t.pc = .testing from hpc]; rfl))⟩

/-- A round that starts after `nextBuffer_` has been used up, with buffers of two characters. -/
theorem buffers_circulate_round :
    let actions : List Action := [.start, .enter, .append [1], .append [2], .append [3], .test,
      .lock, .append [4], .checkOverload "", .write, .write, .write, .recycle]
    ∃ s : PointerLogging 2, runAll step new actions = .ok s ∧ s.output = [1, 2, 3] ∧
      IsFresh s.newBuffer1 ∧ IsFresh s.newBuffer2 ∧ s.buffersToWrite = [] := by
  intro actions
  have hrun : ∃ s : PointerLogging 2, runAll step new actions = .ok s ∧ s.output = [1, 2, 3] ∧
      s.pc = .testing := ⟨_, rfl, rfl, rfl⟩
  obtain ⟨s, hs, houtput, hpc⟩ := hrun
  exact ⟨s, hs, houtput, ((buffers_circulate actions).2 s hs).2.2.1 hpc⟩

end PointerLogging

end Fishnet
