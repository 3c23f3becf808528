import Fishnet.Net.ConnectionSpec

/-!
# A connection and its loop

The system that one connection makes up with its loop: the functors it has queued, in order, and the
timers that `forceCloseWithDelay` has set. A step is a public operation by some thread, the next
queued functor, a dispatch of the poller, a timer that goes off, or one of the two calls by which
the owner of the connection starts and ends its life.

## Closing in a dispatch

One dispatch can lead to `handleClose` on two ways: `POLLHUP` without `POLLIN`, and a read of length
zero. `CloseOnce` says that the dispatch takes no more of them than the connection can stand. It is
the exact condition under which a dispatch trips no assertion, `handleEvent_of_not_closeOnce`, and
the condition of the rule `handleEvent_rule` by which invariants of a connection pass through a
dispatch.
-/

namespace Fishnet

open TcpConnection Effect EventMask

/-! ## The system -/

/-- The functors queued in a piece of trace. -/
def Effect.queued : List Effect → List Functor
  | [] => []
  | queueInLoop f :: es => f :: queued es
  | _ :: es => queued es

/-- The timers set in a piece of trace. -/
def Effect.timersSet (es : List Effect) : ℕ :=
  es.countP fun e ↦ match e with
    | runAfter => true
    | _ => false

theorem Effect.mem_queued {f : Functor} {es : List Effect} :
    f ∈ queued es ↔ queueInLoop f ∈ es := by
  induction es with
  | nil => simp [queued]
  | cons e es ih => cases e <;> simp [queued, ih]

/-- A connection together with what its loop still has to do for it. -/
structure LoopState where
  conn : TcpConnection
  /-- Its functors in `pendingFunctors_`. -/
  pending : List Functor
  /-- How many timers to `forceClose` are set. -/
  delayed : ℕ
  /-- Whether `connectDestroyed` has run. -/
  destroyed : Bool

/-- What can happen next. -/
inductive Act where
  /-- A public operation, in the thread of the loop or in another one. -/
  | call (inLoop : Bool) (k : Call)
  /-- The loop runs the next functor. -/
  | functor (env : Env)
  /-- The poller reports `revents`. -/
  | event (revents : EventMask) (env : Env)
  /-- A timer set by `forceCloseWithDelay` goes off. -/
  | timer
  | connectEstablished (env : Env)
  | connectDestroyed (env : Env)

namespace LoopState

/-- A new connection, with nothing to do. -/
def new (poller : PollerKind) (writeCompleteCallback highWaterMarkCallback : Bool)
    (highWaterMark : ℕ) : Checked LoopState := do
  let conn ← TcpConnection.new poller writeCompleteCallback highWaterMarkCallback highWaterMark
  pure ⟨conn, [], 0, false⟩

variable (s : LoopState)

/-- What an action does to the connection. -/
def connStep : Act → Checked TcpConnection
  | .call inLoop k => s.conn.call inLoop k
  | .functor env =>
    match s.pending with
    | [] => pure s.conn
    | f :: _ => s.conn.runFunctor env f
  | .event revents env => s.conn.handleEvent revents env
  | .timer => pure (if s.delayed = 0 then s.conn else s.conn.forceClose)
  | .connectEstablished env => s.conn.connectEstablished env.onConnection
  | .connectDestroyed env => s.conn.connectDestroyed env.onConnection

/-- What an action leaves in the queue, before the functors it queues itself. -/
def pendingAfter : Act → List Functor
  | .functor _ => s.pending.tail
  | _ => s.pending

def delayedAfter : Act → ℕ
  | .timer => s.delayed - 1
  | _ => s.delayed

def destroyedAfter : Act → Bool
  | .connectDestroyed _ => true
  | _ => s.destroyed

/-- One step: the connection moves, and the loop takes over what the connection queued. -/
def step (s : LoopState) (a : Act) : Checked LoopState := do
  let conn ← s.connStep a
  let es := conn.trace.drop s.conn.trace.length
  pure ⟨conn, s.pendingAfter a ++ queued es, s.delayedAfter a + timersSet es, s.destroyedAfter a⟩

variable {s}

theorem new_spec (poller : PollerKind) (wcc hcb : Bool) (mark : ℕ) :
    ∃ s, new poller wcc hcb mark = .ok s ∧ s.conn.Wf ∧ s.conn.state = .kConnecting ∧
      s.conn.reading = true ∧ s.conn.channel = Channel.new poller ∧
      s.conn.outputBuffer.content = [] ∧ s.conn.trace = [] ∧ s.pending = [] ∧
      s.destroyed = false := by
  obtain ⟨c, hc, hwf, hstate, hreading, hchannel, hcontent, htrace⟩ :=
    TcpConnection.new_spec poller wcc hcb mark
  exact ⟨_, bind_of_ok hc _, hwf, hstate, hreading, hchannel, hcontent, htrace, rfl, rfl⟩

theorem connStep_functor_nil {env : Env} (h : s.pending = []) :
    s.connStep (.functor env) = .ok s.conn := by
  simp only [connStep, h]
  rfl

theorem connStep_functor_cons {env : Env} {f : Functor} {rest : List Functor}
    (h : s.pending = f :: rest) : s.connStep (.functor env) = s.conn.runFunctor env f := by
  simp only [connStep, h]

theorem step_eq_ok {s s' : LoopState} {a : Act} (h : s.step a = .ok s') :
    s.connStep a = .ok s'.conn ∧ s'.destroyed = s.destroyedAfter a ∧
      s'.pending = s.pendingAfter a ++ queued (s'.conn.trace.drop s.conn.trace.length) := by
  obtain ⟨c, hc, h⟩ := bind_eq_ok.mp h
  cases h
  exact ⟨hc, rfl, rfl⟩

/-- What an action yields for the connection, it yields for the system. -/
theorem step_yields {a : Act} {Q : TcpConnection → Prop} (h : Yields (s.connStep a) Q) :
    Yields (s.step a) fun s' ↦ Q s'.conn ∧ s'.destroyed = s.destroyedAfter a ∧
      s'.pending = s.pendingAfter a ++ queued (s'.conn.trace.drop s.conn.trace.length) :=
  h.bind fun _ hc ↦ yields_pure ⟨hc, rfl, rfl⟩

/-- An environment in which no callback calls the connection, reads find the end of the stream and
writes take nothing. -/
def idleEnv : Env := ⟨.accepted 0, 0, [], [], [], []⟩

/-- Every new connection gets connected, and is then watched for reading. -/
theorem established (poller : PollerKind) (wcc hcb : Bool) (mark : ℕ) :
    ∃ s, (new poller wcc hcb mark >>= fun s ↦ s.step (.connectEstablished idleEnv)) = .ok s ∧
      s.conn.Wf ∧ s.conn.state = .kConnected ∧
      s.conn.channel.registration.watched = some Channel.kReadEvent ∧
      s.conn.outputBuffer.content = [] ∧
      s.conn.trace = [.connectionCallback .kConnected] := by
  obtain ⟨s, hs, hwf, hstate, -, hchannel, hcontent, htrace, -⟩ := new_spec poller wcc hcb mark
  obtain ⟨ch, heq, hl, hevents, hwatched⟩ := connectEstablished_eq hwf hstate []
  have hstep : s.step (.connectEstablished idleEnv) = _ := bind_of_ok heq _
  refine ⟨_, (bind_of_ok hs _).trans hstep, ⟨hwf.buffer, hl.tracked.consistent⟩, rfl, ?_,
    hcontent, ?_⟩
  · change ch.registration.watched = _
    rw [hwatched, hevents, hchannel]
    exact congrArg some (show (0 : EventMask) ||| Channel.kReadEvent = _ by decide)
  · change s.conn.trace ++ _ = _
    rw [htrace]
    rfl

end LoopState

/-! ## Dispatch -/

/-- The dispatch takes the hang-up way to `handleClose`. -/
def hupCloses (revents : EventMask) : Bool := revents.has POLLHUP && !revents.has POLLIN

/-- The dispatch reads. -/
def reads (revents : EventMask) : Bool := revents.has (POLLIN ||| POLLPRI ||| POLLRDHUP)

/-- The dispatch takes the end-of-file way to `handleClose`. -/
def eofCloses (revents : EventMask) (read : ℤ) : Bool := reads revents && decide (read = 0)

namespace TcpConnection

/-- `handleClose` is entered at most once, and not at all unless the connection is open. -/
def CloseOnce (c : TcpConnection) (revents : EventMask) (read : ℤ) : Prop :=
  (hupCloses revents).toNat + (eofCloses revents read).toNat ≤ c.state.isOpen.toNat

instance (c : TcpConnection) (revents : EventMask) (read : ℤ) :
    Decidable (c.CloseOnce revents read) :=
  inferInstanceAs (Decidable (_ ≤ _))

variable {c : TcpConnection} {revents : EventMask} {env : Env}

theorem CloseOnce.cases {read : ℤ} (h : c.CloseOnce revents read) :
    (hupCloses revents = false ∧ eofCloses revents read = false) ∨
    (c.state.isOpen = true ∧ hupCloses revents = true ∧ eofCloses revents read = false) ∨
    (c.state.isOpen = true ∧ hupCloses revents = false ∧ eofCloses revents read = true) := by
  rw [CloseOnce] at h
  revert h
  cases hupCloses revents <;> cases eofCloses revents read <;> cases c.state.isOpen <;> decide

/-- A dispatch, without the error callback: that one only logs. -/
theorem handleEvent_eq : c.handleEvent revents env =
    (if hupCloses revents then c.handleClose env.onConnection else pure c) >>= fun d ↦
    (if reads revents then d.handleRead env.read env.onMessage env.onConnection else pure d) >>=
      fun d ↦ if revents.has POLLOUT then d.handleWrite env.write else pure d := by
  rw [handleEvent, Channel.handleEventWithGuard, hupCloses, reads]
  cases revents.has POLLHUP && !revents.has POLLIN <;>
    cases revents.has (POLLIN ||| POLLPRI ||| POLLRDHUP) <;> simp

/-- **Dispatch rule.** What closing, the message callback and writing preserve, a dispatch that
closes at most once preserves. The message callback may find the connection as it was or closed. -/
theorem handleEvent_rule {I : TcpConnection → Prop} (hI : I c)
    (honce : c.CloseOnce revents env.read)
    (hclose : (hupCloses revents || eofCloses revents env.read) = true → c.state.isOpen = true →
      Yields (c.handleClose env.onConnection) I)
    (hmessage : ∀ d, I d → (hupCloses revents = false → d = c) →
      Yields ((d.emits [.messageCallback]).calls env.onMessage) I)
    (hwrite : ∀ d, I d → Yields (d.handleWrite env.write) I) :
    Yields (c.handleEvent revents env) I := by
  rw [handleEvent_eq]
  have hhup : Yields (if hupCloses revents then c.handleClose env.onConnection else pure c)
      fun d ↦ I d ∧ (hupCloses revents = false → d = c) := by
    split
    next hup =>
      have hopen : c.state.isOpen = true := by
        rcases honce.cases with ⟨hno, -⟩ | ⟨hopen, -⟩ | ⟨hopen, -⟩
        · rw [hup] at hno
          cases hno
        · exact hopen
        · exact hopen
      refine (hclose (by rw [hup, Bool.true_or]) hopen).imp fun d hd ↦ ⟨hd, fun hno ↦ ?_⟩
      rw [hup] at hno
      cases hno
    next => exact yields_pure ⟨hI, fun _ ↦ rfl⟩
  refine hhup.bind ?_
  rintro d ⟨hd, hsame⟩
  have hread : Yields (if reads revents then
      d.handleRead env.read env.onMessage env.onConnection else pure d) I := by
    split
    next hreads =>
      rw [handleRead]
      split
      next => exact hmessage d hd hsame
      next =>
        split
        next hzero =>
          -- the end of the stream closes the connection, so the hang-up has not
          have heof : eofCloses revents env.read = true := by
            rw [eofCloses, hreads, hzero]
            rfl
          rcases honce.cases with ⟨-, hno⟩ | ⟨-, -, hno⟩ | ⟨hopen, hup, -⟩
          · rw [heof] at hno
            cases hno
          · rw [heof] at hno
            cases hno
          · rw [hsame hup]
            exact hclose (by rw [heof, Bool.or_true]) hopen
        next => exact yields_pure hd
    next => exact yields_pure hd
  refine hread.bind fun e he ↦ ?_
  split
  · exact hwrite e he
  · exact yields_pure he

/-- A dispatch that closes too often trips the assertion of `handleClose`. -/
theorem handleEvent_of_not_closeOnce (h : c.Wf) (honce : ¬c.CloseOnce revents env.read) :
    c.handleEvent revents env = .error .assertion := by
  have hclosed : ∀ d : TcpConnection, d.state.isOpen = false → eofCloses revents env.read = true →
      (if reads revents then d.handleRead env.read env.onMessage env.onConnection else pure d)
        = .error .assertion := by
    intro d hd heof
    rw [eofCloses, Bool.and_eq_true, decide_eq_true_eq] at heof
    rw [if_pos heof.1, handleRead, heof.2, if_neg (lt_irrefl _), if_pos rfl]
    exact handleClose_of_not_open hd _
  rw [handleEvent_eq]
  by_cases hopen : c.state.isOpen = true
  · -- both ways are taken: the second one finds the connection disconnected
    have hboth : hupCloses revents = true ∧ eofCloses revents env.read = true := by
      rw [CloseOnce, hopen] at honce
      revert honce
      cases hupCloses revents <;> cases eofCloses revents env.read <;> decide
    obtain ⟨d, hd, hcl⟩ := handleClose_ok h hopen env.onConnection
    rw [if_pos hboth.1, bind_of_ok hd, hclosed d (by rw [hcl.state]; rfl) hboth.2]
    rfl
  · rw [Bool.not_eq_true] at hopen
    by_cases hup : hupCloses revents = true
    · rw [if_pos hup, handleClose_of_not_open hopen]
      rfl
    · have heof : eofCloses revents env.read = true := by
        rw [CloseOnce, hopen] at honce
        revert honce hup
        cases hupCloses revents <;> cases eofCloses revents env.read <;> decide
      rw [if_neg hup, pure_bind, hclosed c hopen heof]
      rfl

end TcpConnection

end Fishnet
