import Fishnet.Net.ConnectionRun

/-!
# The life of a connection that is never told to start or stop reading

Without `startRead` and `stopRead` the life of a connection is simple: from `connectEstablished` on
it listens, until `handleClose` takes it off the poller for good. `Busy` is what a connection does
in between, `Closed` how it ends. A dispatch of a listening connection is one or the other, provided
that the kernel does not report `POLLPRI` or `POLLRDHUP` with a hang-up unless there is something to
read.
-/

namespace Fishnet

open TcpConnection Effect EventMask

/-- No callback tells its connection to start or stop reading. -/
def TcpConnection.Env.NoReadControl (env : Env) : Prop :=
  ∀ k ∈ env.onConnection ++ env.onMessage ++ env.onWriteComplete ++ env.onHighWaterMark,
    k.isReadControl = false

theorem TcpConnection.Env.NoReadControl.onConnection {env : Env} (h : env.NoReadControl) :
    ∀ k ∈ env.onConnection, k.isReadControl = false :=
  fun k hk ↦ h k (by simp [hk])

/-- The kernel reports `POLLPRI` or `POLLRDHUP` together with `POLLHUP` only with `POLLIN`. -/
def KernelReports (revents : EventMask) : Prop :=
  revents.has POLLHUP = true → revents.has (POLLPRI ||| POLLRDHUP) = true →
    revents.has POLLIN = true

theorem has_or (m a b : EventMask) : m.has (a ||| b) = (m.has a || m.has b) := by
  rw [EventMask.has, EventMask.has, EventMask.has, BitVec.and_or_distrib_left,
    Bool.eq_iff_iff, Bool.or_eq_true, bne_iff_ne, bne_iff_ne, bne_iff_ne, ← not_and_or, Ne,
    not_iff_not]
  exact BitVec.or_eq_zero_iff

/-- So a dispatch that closes on a hang-up does not read. -/
theorem KernelReports.not_reads {revents : EventMask} (h : KernelReports revents)
    (hup : hupCloses revents = true) : reads revents = false := by
  rw [hupCloses, Bool.and_eq_true, Bool.not_eq_true'] at hup
  rw [reads, BitVec.or_assoc, has_or, hup.2, Bool.false_or]
  by_contra hne
  rw [Bool.not_eq_false] at hne
  have hin := h hup.1 hne
  rw [hup.2] at hin
  cases hin

namespace TcpConnection

/-- A connection between `connectEstablished` and `handleClose`. -/
structure Up (c : TcpConnection) : Prop where
  wf : c.Wf
  isOpen : c.state.isOpen = true
  listening : c.channel.Listening
  noRead : c.NoRead

/-- A connection after `handleClose`. -/
structure Down (c : TcpConnection) : Prop where
  state : c.state = .kDisconnected
  removable : c.channel.Removable
  unwatched : c.channel.registration.watched = none

/-- What `handleClose` does to a listening connection: nothing the connection callback calls has any
effect. -/
def Closed (c c' : TcpConnection) : Prop :=
  c'.Down ∧ c'.trace = c.trace ++ [.connectionCallback .kDisconnected, .closeCallback]

variable {c c' : TcpConnection} {env : Env} {revents : EventMask}

theorem Up.of_busy (h : c.Up) (hb : Busy c c') : c'.Up :=
  ⟨hb.quiet.wf, by rw [hb.quiet.isOpen, h.isOpen], hb.listening h.listening, hb.noRead h.noRead⟩

theorem Down.not_open (h : c.Down) : c.state.isOpen = false := by
  rw [h.state]
  rfl

theorem Down.emits (h : c.Down) (es : List Effect) : (c.emits es).Down :=
  ⟨h.state, h.removable, h.unwatched⟩

theorem Down.handleWrite (h : c.Down) (w : WriteResult) : c.handleWrite w = .ok c := by
  apply handleWrite_of_not_writing
  rw [Channel.isWriting, h.removable.1]
  exact EventMask.zero_has _

theorem Up.handleClose (h : c.Up) {ks : List Call} (hks : ∀ k ∈ ks, k.isReadControl = false) :
    ∃ c', c.handleClose ks = .ok c' ∧ Closed c c' := by
  obtain ⟨ch, hch, hremovable, hwatched⟩ := h.listening.disableAll
  have hok : c.handleClose ks = .ok ({ c with state := .kDisconnected, channel := ch }.emits
      [.connectionCallback .kDisconnected, .closeCallback]) := by
    rw [TcpConnection.handleClose, assert_bind_of h.isOpen, bind_of_ok hch,
      connectionCallback, calls_of_disconnected rfl hks]
    exact congrArg Except.ok (emits_emits _ _ _)
  exact ⟨_, hok, ⟨rfl, hremovable, hwatched⟩, rfl⟩

/-- Of the functors of a listening connection only `forceCloseInLoop` closes it. -/
theorem Up.runFunctor_busy (h : c.Up) (henv : env.NoReadControl) {f : Functor}
    (hf : f.isReadControl = false) (hclose : f ≠ .forceCloseInLoop) :
    Yields (c.runFunctor env f) (Busy c) := by
  cases f with
  | sendInLoop message =>
    have hc : c.state ≠ .kDisconnected := by
      intro hd
      have hopen := h.isOpen
      rw [hd] at hopen
      cases hopen
    exact (sendInLoop_spec h.wf hc message.2 env.write).imp fun _ hs ↦ hs.busy
  | shutdownInLoop => exact yields_pure (shutdownInLoop_busy h.wf)
  | forceCloseInLoop => exact absurd rfl hclose
  | startReadInLoop => cases hf
  | stopReadInLoop => cases hf
  | writeComplete => exact calls_busy h.wf fun k hk ↦ henv k (by simp [hk])
  | highWaterMark len => exact calls_busy h.wf fun k hk ↦ henv k (by simp [hk])

theorem Up.forceCloseInLoop (h : c.Up) (henv : env.NoReadControl) :
    ∃ c', c.runFunctor env .forceCloseInLoop = .ok c' ∧ Closed c c' := by
  obtain ⟨c', hc', hcl⟩ := h.handleClose henv.onConnection
  refine ⟨c', ?_, hcl⟩
  rw [TcpConnection.runFunctor, TcpConnection.forceCloseInLoop, if_pos h.isOpen, hc']

theorem Up.runFunctor (h : c.Up) (henv : env.NoReadControl) {f : Functor}
    (hf : f.isReadControl = false) :
    Yields (c.runFunctor env f) fun c' ↦ Busy c c' ∨ Closed c c' := by
  cases f with
  | forceCloseInLoop =>
    obtain ⟨c', hc', hcl⟩ := h.forceCloseInLoop henv
    rw [hc']
    exact yields_ok (Or.inr hcl)
  | _ => exact (h.runFunctor_busy henv hf fun hno ↦ by cases hno).imp fun _ ↦ Or.inl

/-- On a connection that has been closed a functor can only half-close the socket. -/
theorem runFunctor_of_disconnected (hc : c.state = .kDisconnected)
    (henv : env.NoReadControl) {f : Functor} (hf : f.isReadControl = false) :
    ∃ unsent, c.runFunctor env f = .ok c ∨
      c.runFunctor env f = .ok (c.emits [.shutdownWrite unsent]) := by
  refine ⟨c.outputBuffer.content, ?_⟩
  cases f with
  | sendInLoop message => exact Or.inl (sendInLoop_of_disconnected hc _ _)
  | shutdownInLoop =>
    change Except.ok c.shutdownInLoop = _ ∨ Except.ok c.shutdownInLoop = _
    rw [shutdownInLoop]
    split
    · exact Or.inl rfl
    · exact Or.inr rfl
  | forceCloseInLoop =>
    left
    rw [TcpConnection.runFunctor, forceCloseInLoop, if_neg (by rw [hc]; decide)]
    rfl
  | startReadInLoop => cases hf
  | stopReadInLoop => cases hf
  | writeComplete => exact Or.inl (calls_of_disconnected hc fun k hk ↦ henv k (by simp [hk]))
  | highWaterMark len => exact Or.inl (calls_of_disconnected hc fun k hk ↦ henv k (by simp [hk]))

/-- A dispatch that closes a listening connection, on a hang-up or at the end of the stream. -/
theorem Up.handleEvent_closed (h : c.Up) (hk : KernelReports revents)
    (henv : env.NoReadControl) (hcloses : (hupCloses revents || eofCloses revents env.read) =
      true) : ∃ c', c.handleEvent revents env = .ok c' ∧ Closed c c' := by
  obtain ⟨d, hd, hcl⟩ := h.handleClose henv.onConnection
  have hwrite : (if revents.has POLLOUT then d.handleWrite env.write else pure d) = .ok d := by
    rw [hcl.1.handleWrite]
    exact ite_self _
  refine ⟨d, ?_, hcl⟩
  rw [handleEvent_eq]
  by_cases hup : hupCloses revents = true
  · -- the hang-up closes, and nothing is read
    rw [if_pos hup, bind_of_ok hd, if_neg (by rw [hk.not_reads hup]; decide), pure_bind,
      hwrite]
  · have heof : eofCloses revents env.read = true := by
      rwa [Bool.eq_false_of_not_eq_true hup, Bool.false_or] at hcloses
    rw [eofCloses, Bool.and_eq_true, decide_eq_true_eq] at heof
    rw [if_neg hup, pure_bind, if_pos heof.1, handleRead, heof.2, if_neg (lt_irrefl _), if_pos rfl,
      bind_of_ok hd, hwrite]

theorem Up.handleEvent_busy (h : c.Up) (henv : env.NoReadControl)
    (hcloses : (hupCloses revents || eofCloses revents env.read) = false) :
    Yields (c.handleEvent revents env) (Busy c) := by
  rw [Bool.or_eq_false_iff] at hcloses
  have hread : Yields (if reads revents then
      c.handleRead env.read env.onMessage env.onConnection else pure c) (Busy c) := by
    split
    next hreads =>
      have hne : env.read ≠ 0 := by
        intro hz
        rw [eofCloses, hreads, hz] at hcloses
        cases hcloses.2
      rw [handleRead]
      split
      · have hm : Busy c (c.emits [.messageCallback]) :=
          Busy.of_emits h.wf rfl fun f hf ↦ by cases hf
        exact (calls_busy hm.quiet.wf fun k hk ↦ henv k (by simp [hk])).imp fun _ ↦ hm.trans
      · exact yields_pure (Busy.refl h.wf)
    next => exact yields_pure (Busy.refl h.wf)
  rw [handleEvent_eq, if_neg (by rw [hcloses.1]; decide), pure_bind]
  refine hread.bind fun e he ↦ ?_
  split
  · exact (handleWrite_spec he.quiet.wf _).imp fun _ hdr ↦ he.trans hdr.busy
  · exact yields_pure he

theorem Up.handleEvent (h : c.Up) (hk : KernelReports revents) (henv : env.NoReadControl) :
    Yields (c.handleEvent revents env) fun c' ↦ Busy c c' ∨ Closed c c' := by
  by_cases hcloses : (hupCloses revents || eofCloses revents env.read) = true
  · obtain ⟨c', hc', hcl⟩ := h.handleEvent_closed hk henv hcloses
    rw [hc']
    exact yields_ok (Or.inr hcl)
  · exact (h.handleEvent_busy henv (Bool.eq_false_of_not_eq_true hcloses)).imp fun _ ↦ Or.inl

/-- `connectEstablished` calls the connection callback first; what that does leaves the connection
busy. -/
theorem connectEstablished_up (h : c.Wf) (hc : c.state = .kConnecting) (hn : c.NoRead)
    {ks : List Call} (hks : ∀ k ∈ ks, k.isReadControl = false) :
    Yields (c.connectEstablished ks) fun c' ↦ c'.Up ∧ ∃ es, lifecycle es = [] ∧
      c'.trace = c.trace ++ (.connectionCallback .kConnected :: es) := by
  obtain ⟨ch, heq, hl, -⟩ := connectEstablished_eq h hc ks
  set d := { c with state := .kConnected, channel := ch }.emits [.connectionCallback .kConnected]
    with hd
  have hup : d.Up := by
    refine ⟨⟨h.buffer, hl.tracked.consistent⟩, rfl, hl, hn.append rfl fun f hf ↦ ?_⟩
    cases List.mem_singleton.mp hf
  rw [heq]
  refine (calls_busy hup.wf hks).imp fun c' hb ↦ ⟨hup.of_busy hb, ?_⟩
  obtain ⟨es, hes, hquiet⟩ := hb.quiet.trace
  refine ⟨es, hquiet, ?_⟩
  rw [hes, hd, emits_trace, List.append_assoc]
  rfl

/-- `connectDestroyed` of a connected connection takes it off the poller first; what the connection
callback calls has no effect. -/
theorem Up.connectDestroyed (h : c.Up) (hstate : c.state = .kConnected) {ks : List Call}
    (hks : ∀ k ∈ ks, k.isReadControl = false) :
    ∃ c', c.connectDestroyed ks = .ok c' ∧ c'.state = .kDisconnected ∧
      c'.trace = c.trace ++ [.connectionCallback .kDisconnected] ∧
      c'.channel.registration.watched = none := by
  obtain ⟨ch, hch, hremovable, -⟩ := h.listening.disableAll
  obtain ⟨ch', hch', -, -, hwatched⟩ := Channel.remove_spec hremovable
  refine ⟨{ { c with state := .kDisconnected, channel := ch }.emits
    [.connectionCallback .kDisconnected] with channel := ch' }, ?_, rfl, rfl, hwatched⟩
  rw [TcpConnection.connectDestroyed, if_pos hstate, bind_of_ok hch,
    connectionCallback, calls_of_disconnected rfl hks, ok_bind]
  exact bind_of_ok hch' _

/-- `connectDestroyed` of a connection that is being shut down finds the channel with its events. -/
theorem Up.connectDestroyed_of_disconnecting (h : c.Up) (hstate : c.state = .kDisconnecting)
    (ks : List Call) : c.connectDestroyed ks = .error .assertion := by
  have hevents : ¬c.channel.isNoneEvent = true := by
    rw [Channel.isNoneEvent_iff]
    exact Channel.isReading_ne_zero h.listening.2.2
  have hremove : c.channel.remove = .error .assertion := assert_bind_of_not hevents _
  rw [TcpConnection.connectDestroyed, if_neg (by rw [hstate]; decide), pure_bind]
  exact bind_eq_error.mpr (Or.inl hremove)

/-- `connectDestroyed` of a closed connection only removes the channel. -/
theorem Down.connectDestroyed (h : c.Down) (ks : List Call) :
    ∃ c', c.connectDestroyed ks = .ok c' ∧ c'.state = .kDisconnected ∧ c'.trace = c.trace ∧
      c'.channel.registration.watched = none := by
  obtain ⟨ch, hch, -, -, hwatched⟩ := Channel.remove_spec h.removable
  refine ⟨{ c with channel := ch }, ?_, h.state, rfl, hwatched⟩
  rw [TcpConnection.connectDestroyed, if_neg (by rw [h.state]; decide), pure_bind]
  exact bind_of_ok hch _

end TcpConnection

end Fishnet
