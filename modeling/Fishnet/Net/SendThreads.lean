import Fishnet.Net.ConnectionRun

/-!
# A connection among threads

`send`, `shutdown` and `forceClose` may be called in any thread. Each of them looks at `state_`
first, and acts on what it saw later. In the loop thread `runInLoop` runs `sendInLoop` or
`shutdownInLoop` at once. In another thread it queues the call for the loop, behind the calls
already there. So calls of the loop thread overtake those that other threads have queued.

The model interleaves the loop thread, written `none`, and any others. It takes a call apart where
another thread can come in: after the test of `state_`, after `setState`, after the hand-over, and
before the return. It follows the connection from `connectEstablished` on until its owner destroys
it. No direct write fails with `EPIPE` or `ECONNRESET`.

The calls that a user callback makes are calls of the loop thread. The fields from `sends` on are
history: no function of the source reads them.

## Main results

* `SendThreads.Ordered`: the calls of a thread are those it has handed over and the one under way.
* `SendThreads.step_cases`: what an action does to the state.
-/

namespace Fishnet

open Effect Function List

/-! ## The connection -/

namespace TcpConnection

variable {c c' : TcpConnection}

/-- What the connection has accepted: the bytes the kernel took, then those in `outputBuffer_`. -/
def stream (c : TcpConnection) : Bytes := wroteBytes c.trace ++ c.outputBuffer.content

/-- How often `shutdownWrite()` was called. -/
def shutdownWrites (c : TcpConnection) : ℕ := (unsentAtShutdown c.trace).length

/-- This answer of `write(2)` lets `handleWrite` empty `outputBuffer_`. -/
def drains (c : TcpConnection) : WriteResult → Bool
  | .accepted k => c.channel.isWriting && decide (0 < c.outputBuffer.readableBytes) &&
      decide (c.outputBuffer.readableBytes ≤ k)
  | .error _ => false

/-- The connection is left in order, with the bytes it has accepted, after `n` calls of
`shutdownWrite()`. -/
structure Moves (c c' : TcpConnection) (n : ℕ) : Prop where
  wf : c'.Wf
  stream : c'.stream = c.stream
  connected : c'.state = .kConnected → c.state = .kConnected
  shutdownWrites : c'.shutdownWrites = c.shutdownWrites + n

theorem Moves.refl (h : c.Wf) : Moves c c 0 := ⟨h, rfl, id, rfl⟩

theorem Moves.setState (h : c.Wf) : Moves c { c with state := .kDisconnecting } 0 :=
  ⟨⟨h.buffer, h.channel⟩, rfl, StateE.noConfusion, rfl⟩

theorem Sends.stream {data : Bytes} {w : WriteResult} (h : Sends c c' data w)
    (hw : w.isFatal = false) : c'.stream = c.stream ++ data := by
  obtain ⟨es, out, htrace, heffects, hout⟩ := h.trace
  rw [TcpConnection.stream, htrace, wroteBytes_append, heffects.wrote, append_assoc, hout hw,
    ← append_assoc]
  rfl

/-! ### Half-closing -/

theorem shutdownInLoop_of_writing (hw : c.channel.isWriting = true) : c.shutdownInLoop = c :=
  if_pos hw

theorem shutdownInLoop_of_idle (hw : c.channel.isWriting = false) :
    c.shutdownInLoop = c.emits [.shutdownWrite c.outputBuffer.content] :=
  if_neg (by rw [hw]; decide)

theorem shutdownWrites_emits (es : List Effect) :
    (c.emits es).shutdownWrites = c.shutdownWrites + (unsentAtShutdown es).length := by
  rw [shutdownWrites, emits_trace, unsentAtShutdown_append, length_append]
  rfl

theorem shutdownInLoop_moves (h : c.Wf) :
    Moves c c.shutdownInLoop (!c.channel.isWriting).toNat := by
  have hwf := (shutdownInLoop_busy h).quiet.wf
  cases hw : c.channel.isWriting with
  | true =>
    rw [shutdownInLoop_of_writing hw]
    exact Moves.refl h
  | false =>
    rw [shutdownInLoop_of_idle hw] at hwf ⊢
    refine ⟨hwf, ?_, id, shutdownWrites_emits _⟩
    rw [stream, emits_trace, wroteBytes_append]
    exact congrArg (· ++ _) (append_nil _)

theorem length_unsentAtShutdown_doneEffects :
    (unsentAtShutdown c.doneEffects).length = (decide (c.state = .kDisconnecting)).toNat := by
  rw [doneEffects, unsentAtShutdown_append, length_append]
  split <;> split
  all_goals simp [unsentAtShutdown, *]

theorem drains_accepted_iff {k : ℕ} : c.drains (.accepted k) = true ↔
    c.channel.isWriting = true ∧ 0 < c.outputBuffer.readableBytes ∧
      c.outputBuffer.readableBytes ≤ k := by
  rw [drains, Bool.and_eq_true, Bool.and_eq_true, decide_eq_true_iff, decide_eq_true_iff, and_assoc]

/-- Once everything is written, a half-close takes place exactly if `shutdown` or `forceClose` has
asked for one. -/
theorem writeDone_shutdownWrites (h : c.Wf) :
    ∃ c', c.writeDone = .ok c' ∧
      c'.shutdownWrites = c.shutdownWrites + (decide (c.state = .kDisconnecting)).toNat := by
  obtain ⟨ch, hch, hidle, -⟩ := h.disableWriting
  refine ⟨_, writeDone_eq hch hidle, ?_⟩
  rw [shutdownWrites_emits, length_unsentAtShutdown_doneEffects]
  rfl

/-- `handleWrite` goes through, and half-closes exactly if it empties `outputBuffer_` while
`kDisconnecting`. -/
theorem handleWrite_shutdownWrites (h : c.Wf) (w : WriteResult) :
    ∃ c', c.handleWrite w = .ok c' ∧ c'.shutdownWrites =
      c.shutdownWrites + (c.drains w && decide (c.state = .kDisconnecting)).toNat := by
  obtain ⟨c', hc', hcase⟩ := handleWrite_case h w
  refine ⟨c', hc', ?_⟩
  cases hcase with
  | nothing hnothing =>
    have hdrains : c.drains w = false := by
      cases w with
      | error errno => rfl
      | accepted k =>
        rw [← Bool.not_eq_true, drains_accepted_iff]
        rintro ⟨hwriting, hpos, hle⟩
        have hzero := hnothing hwriting k rfl
        omega
    rw [hdrains]
    rfl
  | @part k b hwriting hlt hinv hcont hleft =>
    have hdrains : c.drains (.accepted k) = false := by
      rw [← Bool.not_eq_true, drains_accepted_iff]
      rintro ⟨-, -, hle⟩
      omega
    rw [hdrains]
    exact shutdownWrites_emits _
  | @all k b c' hwriting hpos hle hinv hnil hdone =>
    have hwf : (c.written c.outputBuffer.content b).Wf := ⟨hinv, h.channel⟩
    obtain ⟨c₁, hc₁, hwrites⟩ := writeDone_shutdownWrites hwf
    rw [hdone] at hc₁
    cases hc₁
    have hdrains : c.drains (.accepted k) = true := drains_accepted_iff.mpr ⟨hwriting, hpos, hle⟩
    have hbefore : (c.written c.outputBuffer.content b).shutdownWrites = c.shutdownWrites :=
      shutdownWrites_emits _
    rw [hwrites, hbefore, hdrains, Bool.true_and]
    rfl

theorem handleWrite_moves (h : c.Wf) (w : WriteResult) :
    ∃ c', c.handleWrite w = .ok c' ∧
      Moves c c' (c.drains w && decide (c.state = .kDisconnecting)).toNat := by
  obtain ⟨c', hc', hwrites⟩ := handleWrite_shutdownWrites h w
  have hdrains := (handleWrite_spec h w).of_eq_ok hc'
  obtain ⟨es, out, htrace, heffects, hout⟩ := hdrains.trace
  refine ⟨c', hc', hdrains.wf, ?_, fun he ↦ by rw [← hdrains.state, he], hwrites⟩
  rw [stream, htrace, wroteBytes_append, heffects.wrote, append_assoc, hout]
  rfl

/-! ### The other things the loop does -/

theorem Rereads.moves (hr : Rereads c c') (h : c.Wf) : Moves c c' 0 := by
  have hwf := (hr.quiet h).wf
  obtain ⟨channel, reading, rfl⟩ := hr.eq
  exact ⟨hwf, rfl, id, rfl⟩

theorem handleClose_moves (h : c.Wf) (hok : c.handleClose [] = .ok c') : Moves c c' 0 := by
  obtain ⟨hopen, hrest⟩ := assert_bind_eq_ok.mp hok
  have hwf := ((handleClose_spec h hopen []).of_eq_ok hok).wf
  obtain ⟨ch, -, hrest⟩ := bind_eq_ok.mp hrest
  cases hrest
  refine ⟨hwf, ?_, StateE.noConfusion, ?_⟩
  · rw [stream, emits_trace, wroteBytes_append, emits_trace, wroteBytes_append]
    simp [stream, wroteBytes]
  · rw [shutdownWrites_emits, shutdownWrites_emits]
    rfl

theorem forceCloseInLoop_moves (h : c.Wf) (hok : c.forceCloseInLoop [] = .ok c') :
    Moves c c' 0 := by
  unfold forceCloseInLoop at hok
  split at hok
  · exact handleClose_moves h hok
  · cases hok
    exact Moves.refl h

end TcpConnection

/-! ## The state -/

/-- A `send` that found the connection `kConnected`. -/
structure SendCall (T : Type) where
  /-- How many such calls there were before it. -/
  index : ℕ
  /-- The thread that called, `none` for the loop thread. -/
  thread : Option T
  message : Message
  deriving DecidableEq

/-- A call in `EventLoop::pendingFunctors_`. -/
inductive QueuedCall (T : Type) where
  | sendInLoop (call : SendCall T)
  /-- With the `send`s that had returned when `shutdown` was called. -/
  | shutdownInLoop (before : List (SendCall T))
  | forceCloseInLoop

/-- Where a thread is in a call. -/
inductive CallPc (T : Type) where
  | idle
  /-- In `send`, which has found the connection `kConnected`. -/
  | sending (call : SendCall T)
  /-- At the end of `send`. -/
  | sent (call : SendCall T)
  /-- At the beginning of `shutdown`. -/
  | shutdownCalled (before : List (SendCall T))
  /-- In `shutdown`, which has found the connection `kConnected`. -/
  | shuttingDown (before : List (SendCall T))
  /-- In `shutdown`, after `setState`. -/
  | shutDown (before : List (SendCall T))
  /-- In `forceClose` or `forceCloseWithDelay`, which has found the connection open. -/
  | forceClosing (delayed : Bool)
  /-- In `forceClose`, after `setState`. -/
  | forceClosed

/-- A `send` that the loop has dealt with. -/
structure Handled (T : Type) where
  call : SendCall T
  /-- The connection was not `kDisconnected`, so the message was written or buffered. -/
  kept : Bool

/-- The state of affairs at a `shutdownWrite()`. -/
structure HalfClose (T : Type) where
  /-- The `send`s that returned before some call of `shutdown`. -/
  owed : List (SendCall T)
  taken : List (SendCall T)
  stream : Bytes

structure SendThreads (T : Type) where
  conn : TcpConnection
  /-- `EventLoop::pendingFunctors_`, as far as the connection is concerned. -/
  pending : List (QueuedCall T)
  pc : Option T → CallPc T
  sends : List (SendCall T)
  handled : List (Handled T)
  /-- The `send`s that have returned. -/
  returned : List (SendCall T)
  /-- Those that returned before some call of `shutdown`. -/
  owed : List (SendCall T)
  halfCloses : List (HalfClose T)

/-- An answer of `write(2)` after which `sendInLoop` keeps its data. -/
abbrev Written := { w : WriteResult // w.isFatal = false }

/-- What the loop does to the connection besides writing. -/
inductive LoopStep where
  | startReadInLoop
  | stopReadInLoop
  | handleClose
  deriving DecidableEq

def LoopStep.run (c : TcpConnection) : LoopStep → Checked TcpConnection
  | startReadInLoop => c.startReadInLoop
  | stopReadInLoop => c.stopReadInLoop
  | handleClose => c.handleClose []

def CallPc.isIdle {T : Type} : CallPc T → Bool
  | idle => true
  | _ => false

namespace SendThreads

variable {T : Type}

/-- A connection that has been established, and no calls. -/
def start (poller : PollerKind) (writeCompleteCallback highWaterMarkCallback : Bool)
    (highWaterMark : ℕ) : Checked (SendThreads T) := do
  let c ← TcpConnection.new poller writeCompleteCallback highWaterMarkCallback highWaterMark
  let c ← c.connectEstablished []
  pure ⟨c, [], fun _ ↦ .idle, [], [], [], [], []⟩

/-- The `send`s whose messages were written or buffered, in order. -/
def taken (s : SendThreads T) : List (SendCall T) := (s.handled.filter (·.kept)).map (·.call)

/-- The `send`s whose messages were given up. -/
def dropped (s : SendThreads T) : List (SendCall T) := (s.handled.filter (!·.kept)).map (·.call)

/-! ## The actions -/

inductive Action (T : Type) where
  /-- `send`, up to the test of `state_`. -/
  | send (t : Option T) (message : Message)
  /-- `shutdown` is called. -/
  | shutdown (t : Option T)
  /-- `forceClose` or `forceCloseWithDelay`, up to the test of `state_`. -/
  | forceClose (t : Option T) (delayed : Bool)
  /-- The thread goes on with its call; `write` is the answer of `write(2)`, if it is tried. -/
  | advance (t : Option T) (write : Written)
  /-- The loop runs the next queued call. -/
  | functor (write : Written)
  /-- The socket is writable. -/
  | handleWrite (write : WriteResult)
  | loop (f : LoopStep)

section

variable (s : SendThreads T)

/-- `sendInLoop`. -/
def sendInLoop (call : SendCall T) (w : Written) : Checked (SendThreads T) := do
  let c ← s.conn.sendInLoop call.message.1 w.1
  pure { s with
    conn := c, handled := s.handled ++ [⟨call, decide (s.conn.state ≠ .kDisconnected)⟩] }

/-- The connection has got to `c`: note a `shutdownWrite()`. -/
def after (c : TcpConnection) : SendThreads T :=
  { s with
    conn := c
    halfCloses := if s.conn.shutdownWrites < c.shutdownWrites then
      s.halfCloses ++ [⟨s.owed, s.taken, s.conn.stream⟩] else s.halfCloses }

/-- A queued call is made. -/
def perform (w : Written) : QueuedCall T → Checked (SendThreads T)
  | .sendInLoop call => s.sendInLoop call w
  | .shutdownInLoop _ => pure (s.after s.conn.shutdownInLoop)
  | .forceCloseInLoop => do
    let c ← s.conn.forceCloseInLoop []
    pure (s.after c)

/-- `EventLoop::queueInLoop`. -/
def queueInLoop (q : QueuedCall T) : SendThreads T := { s with pending := s.pending ++ [q] }

/-- `EventLoop::runInLoop`. -/
def runInLoop (t : Option T) (q : QueuedCall T) (w : Written) : Checked (SendThreads T) :=
  if t.isNone then s.perform w q else pure (s.queueInLoop q)

def functor (w : Written) : Except Halt (SendThreads T) :=
  match s.pending with
  | [] => .error .disabled
  | q :: pending => attempt ((s.pc none).isIdle) ({ s with pending := pending }.perform w q)

end

variable [DecidableEq T] (s : SendThreads T)

/-- The thread goes to `p`. -/
def goto (t : Option T) (p : CallPc T) : SendThreads T := { s with pc := update s.pc t p }

/-- The rest of a call, one access to what the threads share at a time. -/
def advance (t : Option T) (w : Written) : Except Halt (SendThreads T) :=
  match s.pc t with
  | .idle => .error .disabled
  | .sending call => attempt True do
    let s ← s.runInLoop t (.sendInLoop call) w
    return s.goto t (.sent call)
  | .sent call => .ok ({ s with returned := s.returned ++ [call] }.goto t .idle)
  | .shutdownCalled before =>
    .ok (s.goto t (if s.conn.state = .kConnected then .shuttingDown before else .idle))
  | .shuttingDown before =>
    .ok ({ s with conn.state := .kDisconnecting }.goto t (.shutDown before))
  | .shutDown before => attempt True do
    let s ← s.runInLoop t (.shutdownInLoop before) w
    return s.goto t .idle
  | .forceClosing delayed =>
    .ok ({ s with conn.state := .kDisconnecting }.goto t (if delayed then .idle else .forceClosed))
  | .forceClosed => .ok ((s.queueInLoop .forceCloseInLoop).goto t .idle)

def step : Action T → Except Halt (SendThreads T)
  | .send t message => guarded ((s.pc t).isIdle)
    (if s.conn.state = .kConnected then
      let call : SendCall T := ⟨s.sends.length, t, message⟩
      { s with sends := s.sends ++ [call] }.goto t (.sending call)
    else s)
  | .shutdown t => guarded ((s.pc t).isIdle)
    ({ s with owed := s.owed ++ s.returned }.goto t (.shutdownCalled s.returned))
  | .forceClose t delayed => guarded ((s.pc t).isIdle)
    (if s.conn.state.isOpen then s.goto t (.forceClosing delayed) else s)
  | .advance t w => s.advance t w
  | .functor w => s.functor w
  | .handleWrite w => attempt ((s.pc none).isIdle) do
    let c ← s.conn.handleWrite w
    pure (s.after c)
  | .loop f => attempt ((s.pc none).isIdle) do
    let c ← f.run s.conn
    pure (s.after c)

/-! ## The order of the calls -/

end SendThreads

namespace CallPc

variable {T : Type}

/-- The `send` whose message is still to be handed over. -/
def progress : CallPc T → List (SendCall T)
  | sending call => [call]
  | _ => []

/-- The `send` that is about to return. -/
def finished : CallPc T → List (SendCall T)
  | sent call => [call]
  | _ => []

/-- The `send`s that had returned when the `shutdown` under way was called. -/
def before : CallPc T → List (SendCall T)
  | shutdownCalled before => before
  | shuttingDown before => before
  | shutDown before => before
  | _ => []

theorem eq_idle {p : CallPc T} (h : p.isIdle = true) : p = idle := by
  cases p with
  | idle => rfl
  | _ => cases h

end CallPc

namespace QueuedCall

variable {T : Type}

def sends : QueuedCall T → Option (SendCall T)
  | sendInLoop call => some call
  | _ => none

def before : QueuedCall T → List (SendCall T)
  | shutdownInLoop before => before
  | _ => []

end QueuedCall

namespace SendThreads

variable {T : Type} {s s' : SendThreads T}

/-- The `send`s that wait for the loop. -/
def queued (pending : List (QueuedCall T)) : List (SendCall T) := pending.filterMap (·.sends)

/-- The `send`s that were handed over: the loop has dealt with them, or will. -/
def placed (s : SendThreads T) : List (SendCall T) := s.handled.map (·.call) ++ queued s.pending

/-- The calls of one thread. -/
def ofThread [DecidableEq T] (t : Option T) (calls : List (SendCall T)) : List (SendCall T) :=
  calls.filter (·.thread = t)

variable [DecidableEq T]

@[simp] theorem ofThread_append (t : Option T) (l m : List (SendCall T)) :
    ofThread t (l ++ m) = ofThread t l ++ ofThread t m :=
  filter_append ..

@[simp] theorem mem_ofThread {t : Option T} {l : List (SendCall T)} {call : SendCall T} :
    call ∈ ofThread t l ↔ call ∈ l ∧ call.thread = t := by
  rw [ofThread, mem_filter, decide_eq_true_eq]

theorem ofThread_singleton (call : SendCall T) : ofThread call.thread [call] = [call] :=
  filter_cons_of_pos (decide_eq_true rfl)

theorem ofThread_eq_nil {t : Option T} {l : List (SendCall T)} (h : ∀ call ∈ l, call.thread ≠ t) :
    ofThread t l = [] :=
  filter_eq_nil_iff.mpr fun call hcall ↦ by simpa using h call hcall

theorem ofThread_singleton_of_ne {t : Option T} {call : SendCall T} (h : call.thread ≠ t) :
    ofThread t [call] = [] :=
  ofThread_eq_nil fun _ hcall ↦ by rwa [mem_singleton.mp hcall]

/-- A list has no duplicates if the calls of no thread have any. -/
theorem nodup_of_ofThread {l : List (SendCall T)} (h : ∀ t, (ofThread t l).Nodup) : l.Nodup := by
  rw [nodup_iff_count_le_one]
  intro call
  have hcount : (ofThread call.thread l).count call = l.count call :=
    count_filter (decide_eq_true rfl)
  rw [← hcount]
  exact nodup_iff_count_le_one.mp (h call.thread) call

/-- **The order of the calls.** The calls of a thread are those it has handed over, in that order,
and the one under way. -/
structure Ordered (sends placed : List (SendCall T)) (pc : Option T → CallPc T) : Prop where
  nodup : sends.Nodup
  index : ∀ call ∈ sends, call.index < sends.length
  order : ∀ t, ofThread t sends = ofThread t placed ++ (pc t).progress

namespace Ordered

variable {sends placed placed' : List (SendCall T)} {pc : Option T → CallPc T} {t : Option T}
  {call : SendCall T} {p : CallPc T}

variable (h : Ordered sends placed pc)
include h

theorem nodup_ofThread (t : Option T) : (ofThread t placed ++ (pc t).progress).Nodup := by
  rw [← h.order t]
  exact h.nodup.filter _

theorem nodup_placed : placed.Nodup :=
  nodup_of_ofThread fun t ↦ (nodup_append.mp (h.nodup_ofThread t)).1

theorem thread_of_progress (hcall : call ∈ (pc t).progress) : call.thread = t := by
  have hmem : call ∈ ofThread t sends := by
    rw [h.order t]
    exact mem_append_right _ hcall
  exact (mem_ofThread.mp hmem).2

theorem not_placed (hcall : call ∈ (pc t).progress) : call ∉ placed := by
  intro hplaced
  have hmem : call ∈ ofThread t placed := mem_ofThread.mpr ⟨hplaced, h.thread_of_progress hcall⟩
  exact (nodup_append.mp (h.nodup_ofThread t)).2.2 call hmem call hcall rfl

theorem hop (hp : p.progress = (pc t).progress) : Ordered sends placed (update pc t p) := by
  refine ⟨h.nodup, h.index, fun t' ↦ ?_⟩
  rw [h.order t']
  by_cases ht : t' = t
  · rw [ht, update_self, hp]
  · rw [update_of_ne ht]

theorem send (ht : pc t = .idle) (message : Message) :
    Ordered (sends ++ [⟨sends.length, t, message⟩]) placed
      (update pc t (.sending ⟨sends.length, t, message⟩)) := by
  refine ⟨nodup_append.mpr ⟨h.nodup, nodup_singleton _, ?_⟩, fun call hcall ↦ ?_,
    fun t' ↦ ?_⟩
  · rintro call hcall _ hnew rfl
    rw [mem_singleton.mp hnew] at hcall
    exact lt_irrefl _ (h.index _ hcall)
  · rw [length_append, length_singleton]
    rcases mem_append.mp hcall with hcall | hcall
    · exact (h.index call hcall).trans (Nat.lt_succ_self _)
    · rw [mem_singleton.mp hcall]
      exact Nat.lt_succ_self _
  · rw [ofThread_append, h.order t']
    by_cases ht' : t' = t
    · rw [ht', ht, update_self, ofThread_singleton ⟨sends.length, t, message⟩]
      exact congrArg (· ++ _) (append_nil _)
    · rw [update_of_ne ht', ofThread_singleton_of_ne (Ne.symm ht'), append_nil]

theorem place (ht : pc t = .sending call) (hp : p.progress = [])
    (hplaced : ∀ t', ofThread t' placed' = ofThread t' placed ++ ofThread t' [call]) :
    Ordered sends placed' (update pc t p) := by
  have hthread : call.thread = t := by
    refine h.thread_of_progress ?_
    rw [ht]
    exact mem_singleton_self _
  refine ⟨h.nodup, h.index, fun t' ↦ ?_⟩
  rw [h.order t', hplaced t']
  by_cases ht' : t' = t
  · rw [ht', ht, update_self, hp, ← hthread, ofThread_singleton, append_nil]
    rfl
  · have hne : call.thread ≠ t' := hthread ▸ Ne.symm ht'
    rw [update_of_ne ht', ofThread_singleton_of_ne hne, append_nil]

end Ordered

/-! ## What an action does -/

/-- What `sendInLoop` does to the connection. -/
structure Deals (c c' : TcpConnection) (data : Bytes) (kept : Bool) : Prop where
  wf : c'.Wf
  state : c'.state = c.state
  stream : c'.stream = c.stream ++ if kept then data else []
  kept : c.state = .kConnected → kept = true

theorem deals_of_sendInLoop {c c' : TcpConnection} (h : c.Wf) {message : Message} {w : Written}
    (hok : c.sendInLoop message.1 w.1 = .ok c') :
    Deals c c' message.1 (decide (c.state ≠ .kDisconnected)) := by
  by_cases hc : c.state = .kDisconnected
  · rw [TcpConnection.sendInLoop_of_disconnected hc] at hok
    cases hok
    refine ⟨h, rfl, ?_, fun he ↦ ?_⟩
    · rw [decide_eq_false (not_not.mpr hc)]
      exact (append_nil _).symm
    · rw [he] at hc
      cases hc
  · have hsends := (TcpConnection.sendInLoop_spec h hc message.2 w.1).of_eq_ok hok
    refine ⟨hsends.wf, hsends.state, ?_, fun _ ↦ decide_eq_true hc⟩
    rw [hsends.stream w.2, decide_eq_true hc]
    rfl

/-- The action calls `shutdownWrite()`. -/
def HalfCloses (s : SendThreads T) : Action T → Bool
  | .advance none _ =>
    match s.pc none with
    | .shutDown _ => !s.conn.channel.isWriting
    | _ => false
  | .functor _ =>
    match s.pending with
    | .shutdownInLoop _ :: _ => (s.pc none).isIdle && !s.conn.channel.isWriting
    | _ => false
  | .handleWrite w =>
    (s.pc none).isIdle && (s.conn.drains w && decide (s.conn.state = .kDisconnecting))
  | _ => false

/-- The cases of an action that goes through. -/
inductive StepCase (s : SendThreads T) : Action T → SendThreads T → Prop
  | send {t : Option T} {m : Message} (ht : s.pc t = .idle) (hc : s.conn.state = .kConnected) :
      StepCase s (.send t m) ({ s with sends := s.sends ++ [SendCall.mk s.sends.length t m] }.goto t
        (.sending ⟨s.sends.length, t, m⟩))
  | shutdown {t : Option T} (ht : s.pc t = .idle) :
      StepCase s (.shutdown t)
        ({ s with owed := s.owed ++ s.returned }.goto t (.shutdownCalled s.returned))
  | sendInLoop {call : SendCall T} {w : Written} {c' : TcpConnection} {kept : Bool}
      (ht : s.pc none = .sending call) (hdeals : Deals s.conn c' call.message.1 kept) :
      StepCase s (.advance none w) ({ s with
        conn := c', handled := s.handled ++ [Handled.mk call kept] }.goto none (.sent call))
  | queueSend {t : T} {call : SendCall T} {w : Written} (ht : s.pc (some t) = .sending call) :
      StepCase s (.advance (some t) w)
        ((s.queueInLoop (.sendInLoop call)).goto (some t) (.sent call))
  | endSend {t : Option T} {call : SendCall T} {w : Written} (ht : s.pc t = .sent call) :
      StepCase s (.advance t w) ({ s with returned := s.returned ++ [call] }.goto t .idle)
  /-- A thread hands over something else than a message. -/
  | queue {t : Option T} {q : QueuedCall T} {w : Written} (hp : (s.pc t).progress = [])
      (hq : q.sends = none) (hbefore : q.before ⊆ (s.pc t).before)
      (hhalf : s.HalfCloses (.advance t w) = false) :
      StepCase s (.advance t w) ((s.queueInLoop q).goto t .idle)
  | functorSend {call : SendCall T} {pending : List (QueuedCall T)} {w : Written}
      {c' : TcpConnection} {kept : Bool} (hpending : s.pending = .sendInLoop call :: pending)
      (hdeals : Deals s.conn c' call.message.1 kept) :
      StepCase s (.functor w) { s with
        conn := c', pending := pending, handled := s.handled ++ [⟨call, kept⟩] }
  | functor {q : QueuedCall T} {pending : List (QueuedCall T)} {w : Written} {c' : TcpConnection}
      (hpending : s.pending = q :: pending) (hq : q.sends = none)
      (hmoves : s.conn.Moves c' (s.HalfCloses (.functor w)).toNat) :
      StepCase s (.functor w) ({ s with pending := pending }.after c')
  /-- The connection moves, and a thread goes on in its call. -/
  | move {a : Action T} {t : Option T} {p : CallPc T} {c' : TcpConnection}
      (hmoves : s.conn.Moves c' (s.HalfCloses a).toNat) (hp : p.progress = (s.pc t).progress)
      (hfinished : p.finished ⊆ (s.pc t).finished) (hbefore : p.before ⊆ (s.pc t).before) :
      StepCase s a ((s.after c').goto t p)

omit [DecidableEq T] in
theorem after_self : s.after s.conn = s := by
  rw [after, if_neg (lt_irrefl _)]

omit [DecidableEq T] in
theorem after_eq_of_moves {c' : TcpConnection} (h : s.conn.Moves c' 0) :
    s.after c' = { s with conn := c' } := by
  rw [after, if_neg (by rw [h.shutdownWrites]; exact lt_irrefl _)]

theorem goto_self (t : Option T) : s.goto t (s.pc t) = s := by
  rw [goto, update_eq_self]

/-- An action of the loop thread moves the connection. -/
theorem StepCase.of_moves {a : Action T} {c' : TcpConnection}
    (hmoves : s.conn.Moves c' (s.HalfCloses a).toNat) : StepCase s a (s.after c') := by
  have hcase : StepCase s a ((s.after c').goto none (s.pc none)) :=
    .move hmoves rfl (List.Subset.refl _) (List.Subset.refl _)
  rwa [show (s.after c').goto none (s.pc none) = s.after c' from goto_self none] at hcase

section Goto

variable {a : Action T} {t : Option T} {p : CallPc T} (hwf : s.conn.Wf)
  (hhalf : s.HalfCloses a = false) (hp : p.progress = (s.pc t).progress)
  (hfinished : p.finished ⊆ (s.pc t).finished) (hbefore : p.before ⊆ (s.pc t).before)
include hwf hhalf hp hfinished hbefore

theorem StepCase.of_goto : StepCase s a (s.goto t p) := by
  have hmoves : s.conn.Moves s.conn (s.HalfCloses a).toNat := by
    rw [hhalf]
    exact .refl hwf
  have hcase : StepCase s a ((s.after s.conn).goto t p) := .move hmoves hp hfinished hbefore
  rwa [after_self] at hcase

theorem StepCase.of_setState :
    StepCase s a ({ s with conn.state := .kDisconnecting }.goto t p) := by
  have hmoves : s.conn.Moves { s.conn with state := .kDisconnecting } (s.HalfCloses a).toNat := by
    rw [hhalf]
    exact .setState hwf
  have hcase := StepCase.move (p := p) hmoves hp hfinished hbefore
  rw [hhalf] at hmoves
  rwa [after_eq_of_moves hmoves] at hcase

end Goto

theorem StepCase.unchanged {a : Action T} (hwf : s.conn.Wf) (hhalf : s.HalfCloses a = false) :
    StepCase s a s := by
  have hcase : StepCase s a (s.goto none (s.pc none)) :=
    .of_goto hwf hhalf rfl (List.Subset.refl _) (List.Subset.refl _)
  rwa [goto_self] at hcase

omit [DecidableEq T] in
theorem halfCloses_advance_eq_false {t : Option T} {w : Written}
    (h : ∀ before, s.pc t ≠ .shutDown before) : s.HalfCloses (.advance t w) = false := by
  cases t with
  | some t => rfl
  | none =>
    unfold HalfCloses
    dsimp only
    split
    · exact absurd ‹_› (h _)
    · rfl

theorem advance_cases {t : Option T} {w : Written} (hwf : s.conn.Wf)
    (hs : s.advance t w = .ok s') : StepCase s (.advance t w) s' := by
  -- one case for each place in the calls
  unfold advance at hs
  split at hs
  · cases hs
  · -- `send`, before `runInLoop`
    rename_i call ht
    obtain ⟨-, hs⟩ := attempt_eq_ok.mp hs
    obtain ⟨u, hu, hs⟩ := bind_eq_ok.mp hs
    cases hs
    cases t with
    | none =>
      obtain ⟨c', hc', hu⟩ := bind_eq_ok.mp hu
      cases hu
      exact .sendInLoop ht (deals_of_sendInLoop hwf hc')
    | some t =>
      cases hu
      exact .queueSend ht
  · rename_i call ht
    cases hs
    exact .endSend ht
  · -- `shutdown`, at its test of `state_`
    rename_i before ht
    cases hs
    have hhalf : s.HalfCloses (.advance t w) = false :=
      halfCloses_advance_eq_false fun before h ↦ by rw [ht] at h; cases h
    split
    · refine .of_goto hwf hhalf ?_ ?_ ?_ <;> rw [ht]
      · rfl
      · exact List.Subset.refl _
      · exact List.Subset.refl _
    · refine .of_goto hwf hhalf ?_ (nil_subset _) (nil_subset _)
      rw [ht]
      rfl
  · -- at its assignment to `state_`
    rename_i before ht
    cases hs
    have hhalf : s.HalfCloses (.advance t w) = false :=
      halfCloses_advance_eq_false fun before h ↦ by rw [ht] at h; cases h
    refine .of_setState hwf hhalf ?_ (nil_subset _) ?_ <;> rw [ht]
    · rfl
    · exact List.Subset.refl _
  · -- at its `runInLoop`, which the loop thread does not queue
    rename_i before ht
    obtain ⟨-, hs⟩ := attempt_eq_ok.mp hs
    obtain ⟨u, hu, hs⟩ := bind_eq_ok.mp hs
    cases hs
    have hprogress : (s.pc t).progress = [] := by rw [ht]; rfl
    cases t with
    | none =>
      cases hu
      have hhalf : s.HalfCloses (.advance none w) = !s.conn.channel.isWriting := by
        simp only [HalfCloses, ht]
      refine .move ?_ hprogress.symm (nil_subset _) (nil_subset _)
      rw [hhalf]
      exact TcpConnection.shutdownInLoop_moves hwf
    | some t =>
      cases hu
      refine .queue hprogress rfl ?_ rfl
      rw [ht]
      exact List.Subset.refl _
  · rename_i delayed ht
    cases hs
    have hhalf : s.HalfCloses (.advance t w) = false :=
      halfCloses_advance_eq_false fun before h ↦ by rw [ht] at h; cases h
    split <;> refine .of_setState hwf hhalf ?_ (nil_subset _)
      (nil_subset _) <;> rw [ht] <;> rfl
  · rename_i ht
    cases hs
    refine .queue ?_ rfl (nil_subset _) (halfCloses_advance_eq_false fun before h ↦ ?_)
    · rw [ht]
      rfl
    · rw [ht] at h
      cases h

theorem functor_cases {w : Written} (hwf : s.conn.Wf) (hs : s.functor w = .ok s') :
    StepCase s (.functor w) s' := by
  unfold functor at hs
  split at hs
  · cases hs
  · rename_i q pending hpending
    obtain ⟨hidle, hs⟩ := attempt_eq_ok.mp hs
    cases q with
    | sendInLoop call =>
      obtain ⟨c', hc', hs⟩ := bind_eq_ok.mp hs
      cases hs
      exact .functorSend hpending (deals_of_sendInLoop hwf hc')
    | shutdownInLoop before =>
      cases hs
      refine .functor hpending rfl ?_
      rw [show s.HalfCloses (.functor w) = !s.conn.channel.isWriting by
        simp only [HalfCloses, hpending, hidle, Bool.true_and]]
      exact TcpConnection.shutdownInLoop_moves hwf
    | forceCloseInLoop =>
      obtain ⟨c', hc', hs⟩ := bind_eq_ok.mp hs
      cases hs
      refine .functor hpending rfl ?_
      rw [show s.HalfCloses (.functor w) = false by simp only [HalfCloses, hpending]]
      exact TcpConnection.forceCloseInLoop_moves hwf hc'

/-- **What an action does.** -/
theorem step_cases {a : Action T} (hwf : s.conn.Wf) (hs : s.step a = .ok s') : StepCase s a s' := by
  cases a with
  | send t m =>
    obtain ⟨ht, hs⟩ := guarded_eq_ok.mp hs
    subst hs
    split
    next hc => exact .send (CallPc.eq_idle ht) hc
    next => exact .unchanged hwf rfl
  | shutdown t =>
    obtain ⟨ht, hs⟩ := guarded_eq_ok.mp hs
    subst hs
    exact .shutdown (CallPc.eq_idle ht)
  | forceClose t delayed =>
    obtain ⟨ht, hs⟩ := guarded_eq_ok.mp hs
    subst hs
    split
    · refine .of_goto hwf rfl ?_ (nil_subset _) (nil_subset _)
      rw [CallPc.eq_idle ht]
      rfl
    · exact .unchanged hwf rfl
  | advance t w => exact advance_cases hwf hs
  | functor w => exact functor_cases hwf hs
  | handleWrite w =>
    obtain ⟨hidle, hs⟩ := attempt_eq_ok.mp hs
    obtain ⟨c', hc', hs⟩ := bind_eq_ok.mp hs
    cases hs
    obtain ⟨d, hd, hmoves⟩ := TcpConnection.handleWrite_moves hwf w
    obtain rfl := Except.ok.inj (hd.symm.trans hc')
    refine .of_moves ?_
    rwa [HalfCloses, hidle, Bool.true_and]
  | loop f =>
    obtain ⟨-, hs⟩ := attempt_eq_ok.mp hs
    obtain ⟨c', hc', hs⟩ := bind_eq_ok.mp hs
    cases hs
    refine .of_moves ?_
    cases f with
    | startReadInLoop => exact ((TcpConnection.startReadInLoop_spec hwf).of_eq_ok hc').moves hwf
    | stopReadInLoop => exact ((TcpConnection.stopReadInLoop_spec hwf).of_eq_ok hc').moves hwf
    | handleClose => exact TcpConnection.handleClose_moves hwf hc'

end SendThreads

end Fishnet
