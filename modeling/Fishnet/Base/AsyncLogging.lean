import Fishnet.Library.Run

/-!
# The asynchronous logger

Threads that log call `append`, which copies the line into the current buffer under the lock. A
back-end thread runs `threadFunc`: in each round it collects the full buffers and the current one
under the lock, writes them to the log file without it, and keeps two of them as the fresh buffers
of the next round.

The model interleaves the calls of `append` with the steps of the back end. What is done under the
lock is one action. The wait on the condition variable releases the lock, and ends by a
notification, by the timeout or for no reason, so it can end at any time.

`currentBuffer_` is never null outside a critical section and is a buffer here. The other three
pointers are options.

## History

The fields `lines` and `rounds` are history: the lines appended so far, and what each round
collected, with the time stamp it would print. No action depends on them.
-/

namespace Fishnet

/-! ## Buffers -/

/-- `FixedBuffer<size>`: the bytes between `data_` and `cur_`. -/
structure FixedBuffer (size : ℕ) where
  data : Bytes
  fits : data.length ≤ size
  deriving DecidableEq

namespace FixedBuffer

variable {size : ℕ}

def new : FixedBuffer size := ⟨[], Nat.zero_le size⟩

def avail (b : FixedBuffer size) : ℕ := size - b.data.length

/-- A line that does not fit is dropped. -/
def append (b : FixedBuffer size) (line : Bytes) : FixedBuffer size :=
  if h : line.length < b.avail then
    ⟨b.data ++ line, by rw [List.length_append]; rw [avail] at h; omega⟩
  else b

/-- `reset`: the length goes back to zero. -/
def reset (_ : FixedBuffer size) : FixedBuffer size := new

theorem data_append (b : FixedBuffer size) {line : Bytes} (h : line.length < b.avail) :
    (b.append line).data = b.data ++ line := by rw [append, dif_pos h]

theorem avail_of_data_eq_nil {b : FixedBuffer size} (h : b.data = []) : b.avail = size := by
  rw [avail, h]
  rfl

end FixedBuffer

/-- `kLargerBuffer`. -/
def kLargerBuffer : ℕ := 4000 * 1000

/-! ## The state -/

/-- Where the back-end thread is. -/
inductive LoggingPc where
  /-- It has not been started. -/
  | created
  /-- Before the first assertion of `threadFunc`. -/
  | starting
  /-- Before the test of `running_`. -/
  | testing
  /-- Before the lock is taken. -/
  | entering
  /-- In `waitForSeconds`. -/
  | waiting
  /-- After the critical section. -/
  | collected
  /-- In the loop over `buffersToWrite`. -/
  | writing
  /-- `threadFunc` has returned. -/
  | exited
  deriving DecidableEq, Repr

/-- What a round collected, and the time at which it looked at the number of buffers. -/
structure Round where
  buffers : List Bytes
  stamp : String
  deriving DecidableEq, Repr

structure AsyncLogging (size : ℕ) where
  /-- `running_`. -/
  running : Bool
  /-- `currentBuffer_`. -/
  currentBuffer : FixedBuffer size
  /-- `nextBuffer_`. -/
  nextBuffer : Option (FixedBuffer size)
  /-- `buffers_`. -/
  buffers : List (FixedBuffer size)
  pc : LoggingPc
  newBuffer1 : Option (FixedBuffer size)
  newBuffer2 : Option (FixedBuffer size)
  buffersToWrite : List (FixedBuffer size)
  /-- The number of buffers that the loop over `buffersToWrite` has written. -/
  written : ℕ
  /-- What `LogFile::append` was given. -/
  output : Bytes
  lines : List Bytes
  rounds : List Round
  deriving DecidableEq

/-- The message about dropped buffers, as `snprintf` leaves it in a buffer of 256 characters. -/
def dropNotice (stamp : String) (dropped : ℕ) : Bytes :=
  (("Dropped log messages at " ++ stamp ++ ", " ++ toString dropped ++
    " larger buffers\n").toList.map
    fun c ↦ UInt8.ofNat c.toNat).take 255

namespace AsyncLogging

variable {size : ℕ}

/-- A logger as constructed. -/
def new : AsyncLogging size where
  running := false
  currentBuffer := .new
  nextBuffer := some .new
  buffers := []
  pc := .created
  newBuffer1 := none
  newBuffer2 := none
  buffersToWrite := []
  written := 0
  output := []
  lines := []
  rounds := []

/-! ## The front end -/

variable (s : AsyncLogging size)

def append (line : Bytes) : AsyncLogging size :=
  if line.length < s.currentBuffer.avail then
    { s with currentBuffer := s.currentBuffer.append line, lines := s.lines ++ [line] }
  else
    { s with
      buffers := s.buffers ++ [s.currentBuffer],
      currentBuffer := (s.nextBuffer.getD .new).append line,
      nextBuffer := none, lines := s.lines ++ [line] }

/-! ## The back end -/

/-- The beginning of `threadFunc`. -/
def enter : Checked (AsyncLogging size) := do
  assert (s.running = true)
  .ok { s with
    pc := .testing, newBuffer1 := some .new, newBuffer2 := some .new, buffersToWrite := [] }

/-- The fresh buffer behind a pointer is there and empty. -/
def IsFresh (b : Option (FixedBuffer size)) : Prop := b.map FixedBuffer.data = some []

instance decidableIsFresh (b : Option (FixedBuffer size)) : Decidable (IsFresh b) :=
  inferInstanceAs (Decidable (_ = _))

/-- The condition of the `while` loop and the assertions behind it. -/
def test : Checked (AsyncLogging size) :=
  if s.running then do
    assert (IsFresh s.newBuffer1)
    assert (IsFresh s.newBuffer2)
    assert (s.buffersToWrite = [])
    .ok { s with pc := .entering }
  else .ok { s with pc := .exited }

/-- The critical section after the wait, when `newBuffer1` points to `fresh`. -/
def collectWith (fresh : FixedBuffer size) : AsyncLogging size :=
  { s with
    currentBuffer := fresh
    newBuffer1 := none
    buffersToWrite := s.buffers ++ [s.currentBuffer]
    buffers := s.buffersToWrite
    nextBuffer := if s.nextBuffer = none then s.newBuffer2 else s.nextBuffer
    newBuffer2 := if s.nextBuffer = none then none else s.newBuffer2
    written := 0
    pc := .collected }

def collect : Checked (AsyncLogging size) :=
  match s.newBuffer1 with
  | none => .error .badAccess
  | some fresh => .ok (s.collectWith fresh)

/-- The critical section up to the wait, or to its end if there is nothing to wait for. -/
def lock : Checked (AsyncLogging size) :=
  if s.buffers = [] then .ok { s with pc := .waiting } else s.collect

/-- More than 25 buffers: a notice is written, and only the first two buffers are kept. -/
def checked (stamp : String) : AsyncLogging size :=
  { s with
    output := if 25 < s.buffersToWrite.length then
        s.output ++ dropNotice stamp (s.buffersToWrite.length - 2)
      else s.output
    buffersToWrite := if 25 < s.buffersToWrite.length then s.buffersToWrite.take 2
      else s.buffersToWrite
    rounds := s.rounds ++ [⟨s.buffersToWrite.map FixedBuffer.data, stamp⟩]
    pc := .writing }

/-- The test of the number of buffers. -/
def checkOverload (stamp : String) : Checked (AsyncLogging size) := do
  assert (s.buffersToWrite ≠ [])
  .ok (s.checked stamp)

/-- The loop over `buffersToWrite`, once. -/
def write : Checked (AsyncLogging size) :=
  match s.buffersToWrite[s.written]? with
  | none => .error .badAccess
  | some buffer => .ok { s with output := s.output ++ buffer.data, written := s.written + 1 }

/-- A pointer that was given away takes the last of the written buffers. -/
def refill (b : Option (FixedBuffer size)) (buffers : List (FixedBuffer size)) :
    Checked (Option (FixedBuffer size) × List (FixedBuffer size)) :=
  match b with
  | some b => .ok (some b, buffers)
  | none =>
    match buffers.getLast? with
    | none => .error .assertion
    | some last => .ok (some last.reset, buffers.dropLast)

/-- The end of a round. -/
def recycle : Checked (AsyncLogging size) := do
  let kept := if 2 < s.buffersToWrite.length then s.buffersToWrite.take 2 else s.buffersToWrite
  let (newBuffer1, rest) ← refill s.newBuffer1 kept
  let (newBuffer2, _) ← refill s.newBuffer2 rest
  .ok { s with
    newBuffer1 := newBuffer1
    newBuffer2 := newBuffer2
    buffersToWrite := []
    written := 0
    pc := .testing }

/-! ## The actions -/

/-- What a thread can do next. The actions from `enter` on are those of the back end. -/
inductive Action where
  | append (line : Bytes)
  | start
  | stop
  | enter
  | test
  | lock
  | wake
  | checkOverload (stamp : String)
  | write
  | recycle
  deriving DecidableEq, Repr

/-- `start` returns when the latch is open, and `stop` is called later. -/
def step : Action → Except Halt (AsyncLogging size)
  | .append line => guarded True (s.append line)
  | .start => guarded (s.pc = .created) { s with running := true, pc := .starting }
  | .stop => guarded (s.pc ≠ .created ∧ s.pc ≠ .starting) { s with running := false }
  | .enter => attempt (s.pc = .starting) s.enter
  | .test => attempt (s.pc = .testing) s.test
  | .lock => attempt (s.pc = .entering) s.lock
  | .wake => attempt (s.pc = .waiting) s.collect
  | .checkOverload stamp => attempt (s.pc = .collected) (s.checkOverload stamp)
  | .write => attempt (s.pc = .writing ∧ s.written < s.buffersToWrite.length) s.write
  | .recycle => attempt (s.pc = .writing ∧ s.written = s.buffersToWrite.length) s.recycle

end AsyncLogging

end Fishnet
