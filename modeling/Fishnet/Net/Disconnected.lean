import Fishnet.Net.ConnectionRun

/-!
# Disconnected connections and the poller

`handleClose` takes a connection off the poller, and `connectDestroyed` takes its channel out of the
poller for good. Does it stay that way? `sendInLoop` and `forceCloseInLoop` look at `state_` before
they act. `startReadInLoop` and `stopReadInLoop` do not: a `startRead` that takes effect on a
disconnected connection makes it wait for input again, and then `connectDestroyed` cannot remove the
channel; a `stopRead` after `connectDestroyed`, while `reading_` is still set, registers the channel
once more.

The main result is that these two are the only ways. It covers every run: public operations from any
thread, callbacks that call back, queued functors, timers and dispatches.
-/

namespace Fishnet

open TcpConnection Effect List

namespace TcpConnection

variable {c : TcpConnection}

/-! ## The channel of a connection -/

/-- An open connection is known to the poller, and a disconnected one is ready to be removed. -/
structure Settled (c : TcpConnection) : Prop where
  wf : c.Wf
  tracked : c.state.isOpen = true → c.channel.Tracked
  removable : c.state = .kDisconnected → c.channel.Removable

section

variable (h : c.Settled)
include h

theorem Settled.of_quiet {c' : TcpConnection} (hq : Quiet c c')
    (hr : c.state = .kDisconnected → c'.channel.Removable) : c'.Settled :=
  ⟨hq.wf, fun ho ↦ hq.tracked (h.tracked (by rwa [← hq.isOpen])),
    fun hd ↦ hr (hq.disconnected_iff.mp hd)⟩

theorem Settled.call (inLoop : Bool) {k : Call}
    (hk : c.state = .kDisconnected → inLoop = true → k ≠ .startRead) :
    Yields (c.call inLoop k) Settled := by
  by_cases hd : c.state = .kDisconnected
  · exact ((call_spec h.wf inLoop k).and (call_removable h.wf hd (h.removable hd) (hk hd))).imp
      fun _ hc' ↦ h.of_quiet hc'.1 fun _ ↦ hc'.2
  · exact (call_spec h.wf inLoop k).imp fun _ hq ↦ h.of_quiet hq fun hd' ↦ absurd hd' hd

theorem Settled.calls {ks : List Call}
    (hks : c.state = .kDisconnected → Call.startRead ∉ ks) : Yields (c.calls ks) Settled := by
  by_cases hd : c.state = .kDisconnected
  · exact (calls_removable h.wf hd (h.removable hd) (hks hd)).imp
      fun _ hc' ↦ h.of_quiet hc'.1 fun _ ↦ hc'.2
  · exact (calls_spec h.wf ks).imp fun _ hq ↦ h.of_quiet hq fun hd' ↦ absurd hd' hd

theorem Settled.handleClose (hopen : c.state.isOpen = true) {ks : List Call}
    (hks : Call.startRead ∉ ks) : Yields (c.handleClose ks) Settled := by
  refine (handleClose_spec h.wf hopen ks).imp fun c' hcl ↦ ⟨hcl.wf, fun _ ↦ hcl.tracked, fun _ ↦ ?_⟩
  exact hcl.removable (h.tracked hopen) hks

theorem Settled.handleWrite (w : WriteResult) : Yields (c.handleWrite w) Settled := by
  by_cases hd : c.state = .kDisconnected
  · have hidle : c.channel.isWriting = false := by
      rw [Channel.isWriting, (h.removable hd).1]
      exact EventMask.zero_has _
    rw [handleWrite_of_not_writing hidle]
    exact yields_ok h
  · exact (handleWrite_spec h.wf w).imp fun _ hdr ↦ h.of_quiet hdr.busy.quiet fun hd' ↦
      absurd hd' hd

/-- A dispatch, given that the callbacks do not start to read a connection it has closed. -/
theorem Settled.handleEvent {revents : EventMask} {env : Env}
    (honce : c.CloseOnce revents env.read)
    (hconn : (hupCloses revents || eofCloses revents env.read) = true →
      Call.startRead ∉ env.onConnection)
    (hmess : c.state = .kDisconnected ∨ hupCloses revents = true → Call.startRead ∉ env.onMessage) :
    Yields (c.handleEvent revents env) Settled := by
  refine handleEvent_rule h honce (fun hcl hopen ↦ h.handleClose hopen (hconn hcl))
    (fun d hd hsame ↦ ?_) fun d hd ↦ hd.handleWrite _
  have hcb : (d.emits [.messageCallback]).Settled :=
    hd.of_quiet (Quiet.emits hd.wf rfl) hd.removable
  refine hcb.calls fun hdown ↦ hmess ?_
  cases hup : hupCloses revents with
  | true => exact Or.inr rfl
  | false =>
    obtain rfl := hsame hup
    exact Or.inl hdown

end

/-- A disconnected connection without events ignores every call, also `stopRead` once `reading_` is
off. -/
theorem call_inert (hc : c.state = .kDisconnected) (hevents : c.channel.events = 0) (inLoop : Bool)
    {k : Call} (hstart : inLoop = true → k ≠ .startRead)
    (hstop : inLoop = true → k = .stopRead → c.reading = false) :
    ∃ es, c.call inLoop k = .ok (c.emits es) := by
  by_cases hread : k.isReadControl = false
  · exact ⟨[], by rw [call_of_disconnected hc inLoop hread, emits_nil]⟩
  · cases inLoop with
    | false =>
      cases k with
      | startRead => exact ⟨_, rfl⟩
      | stopRead => exact ⟨_, rfl⟩
      | _ => exact absurd rfl hread
    | true =>
      cases k with
      | startRead => exact absurd rfl (hstart rfl)
      | stopRead =>
        have hidle : c.channel.isReading = false := by
          rw [Channel.isReading, hevents]
          exact EventMask.zero_has _
        refine ⟨[], ?_⟩
        rw [emits_nil]
        change c.stopReadInLoop = _
        rw [stopReadInLoop, hstop rfl rfl, hidle]
        rfl
      | _ => exact absurd rfl hread

theorem calls_inert (hc : c.state = .kDisconnected) (hevents : c.channel.events = 0)
    {ks : List Call} (hstart : Call.startRead ∉ ks)
    (hstop : Call.stopRead ∈ ks → c.reading = false) : ∃ es, c.calls ks = .ok (c.emits es) := by
  induction ks generalizing c with
  | nil => exact ⟨[], by rw [emits_nil]; rfl⟩
  | cons k ks ih =>
    rw [mem_cons, not_or] at hstart
    obtain ⟨es, hes⟩ := call_inert hc hevents true (k := k) (fun _ h ↦ hstart.1 h.symm)
      fun _ h ↦ hstop (h ▸ mem_cons_self)
    obtain ⟨fs, hfs⟩ := ih (c := c.emits es) hc hevents hstart.2
      fun h ↦ hstop (mem_cons_of_mem _ h)
    refine ⟨es ++ fs, ?_⟩
    rw [TcpConnection.calls, runAll, bind_of_ok hes, ← emits_emits]
    exact hfs

end TcpConnection

/-! ## Runs -/

namespace LoopState

/-- How the owner and the poller behave: `connectDestroyed` comes once and after the close, and no
event is reported after it. -/
def Admissible (s : LoopState) : Act → Prop
  | .event _ _ => s.destroyed = false
  | .connectDestroyed _ => s.conn.state = .kDisconnected ∧ s.destroyed = false
  | _ => True

/-- The calls do not start to read a disconnected connection, nor stop to read a destroyed one that
has `reading_` set. -/
def SafeCalls (s : LoopState) (ks : List Call) : Prop :=
  (s.conn.state = .kDisconnected → Call.startRead ∉ ks) ∧
    (s.destroyed = true → Call.stopRead ∈ ks → s.conn.reading = false)

/-- The same for what a queued functor does, which may close the connection itself. -/
def SafeFunctor (s : LoopState) (env : Env) : Functor → Prop
  | .sendInLoop _ => True
  | .shutdownInLoop => True
  | .forceCloseInLoop => s.conn.state.isOpen = true → Call.startRead ∉ env.onConnection
  | .startReadInLoop => s.SafeCalls [.startRead]
  | .stopReadInLoop => s.SafeCalls [.stopRead]
  | .writeComplete => s.SafeCalls env.onWriteComplete
  | .highWaterMark _ => s.SafeCalls env.onHighWaterMark

/-- No action starts to read a disconnected connection, or stops to read a destroyed one that has
`reading_` set. A call by another thread only queues a functor. -/
def SafeReads (s : LoopState) : Act → Prop
  | .call inLoop k => inLoop = true → s.SafeCalls [k]
  | .functor env => ∀ f ∈ s.pending.head?, s.SafeFunctor env f
  | .event revents env =>
    ((hupCloses revents || eofCloses revents env.read) = true →
      Call.startRead ∉ env.onConnection) ∧
    (s.conn.state = .kDisconnected ∨ hupCloses revents = true → Call.startRead ∉ env.onMessage)
  | _ => True

/-- The invariant of runs. -/
structure AtRest (s : LoopState) : Prop where
  live : s.destroyed = false → s.conn.Settled
  gone : s.destroyed = true → s.conn.state = .kDisconnected ∧ s.conn.channel.events = 0 ∧
    s.conn.channel.registration.inChannels = false ∧
    s.conn.channel.registration.watched = none

variable {s s' : LoopState}

theorem runFunctor_settled (h : s.conn.Settled) {env : Env} {f : Functor}
    (hf : s.SafeFunctor env f) : Yields (s.conn.runFunctor env f) Settled := by
  cases f with
  | sendInLoop message =>
    by_cases hd : s.conn.state = .kDisconnected
    · rw [runFunctor, sendInLoop_of_disconnected hd]
      exact yields_ok h
    · exact (sendInLoop_spec h.wf hd message.2 env.write).imp fun _ hs ↦
        h.of_quiet hs.busy.quiet fun hd' ↦ absurd hd' hd
  | shutdownInLoop =>
    refine yields_pure (h.of_quiet (shutdownInLoop_busy h.wf).quiet fun hd ↦ ?_)
    rw [shutdownInLoop]
    split <;> exact h.removable hd
  | forceCloseInLoop =>
    rw [runFunctor, forceCloseInLoop]
    split
    next hopen => exact h.handleClose hopen (hf hopen)
    next => exact yields_pure h
  | startReadInLoop =>
    exact h.call true (k := .startRead) fun hd _ _ ↦ hf.1 hd mem_cons_self
  | stopReadInLoop =>
    exact h.call true (k := .stopRead) fun _ _ he ↦ by cases he
  | writeComplete => exact h.calls hf.1
  | highWaterMark len => exact h.calls hf.1

/-- A step of a connection that is not destroyed. -/
theorem connStep_settled (h : s.conn.Settled) {a : Act} (hsafe : s.SafeReads a)
    (ha : ∀ env, a ≠ .connectDestroyed env) {c : TcpConnection} (hok : s.connStep a = .ok c) :
    c.Settled := by
  cases a with
  | call inLoop k =>
    refine (h.call inLoop fun hd hin he ↦ ?_).of_eq_ok hok
    exact (hsafe hin).1 hd (he ▸ mem_cons_self)
  | functor env =>
    cases hp : s.pending with
    | nil =>
      rw [connStep_functor_nil hp] at hok
      cases hok
      exact h
    | cons f rest =>
      rw [connStep_functor_cons hp] at hok
      exact (runFunctor_settled h (hsafe f (by rw [hp]; rfl))).of_eq_ok hok
  | event revents env =>
    have honce : s.conn.CloseOnce revents env.read := by
      by_contra hno
      rw [connStep, handleEvent_of_not_closeOnce h.wf hno] at hok
      cases hok
    exact (h.handleEvent honce hsafe.1 hsafe.2).of_eq_ok hok
  | timer =>
    cases hok
    split
    · exact h
    · exact (h.call true (k := .forceClose) fun _ _ he ↦ by cases he).of_eq_ok rfl
  | connectEstablished env =>
    have hconnecting : s.conn.state = .kConnecting := (assert_bind_eq_ok.mp hok).1
    have hest := (connectEstablished_spec h.wf hconnecting env.onConnection).of_eq_ok hok
    refine ⟨hest.wf, fun _ ↦ hest.tracked, fun hd ↦ ?_⟩
    have hopen := hest.isOpen
    rw [hd] at hopen
    cases hopen
  | connectDestroyed env => exact absurd rfl (ha env)

/-- `connectDestroyed` removes the channel of a disconnected connection. -/
theorem connectDestroyed_of_settled {c : TcpConnection} (h : c.Settled)
    (hd : c.state = .kDisconnected) (ks : List Call) :
    ∃ c', c.connectDestroyed ks = .ok c' ∧ c'.state = .kDisconnected ∧ c'.channel.events = 0 ∧
      c'.channel.registration.inChannels = false ∧ c'.channel.registration.watched = none := by
  obtain ⟨ch, hch, hevents, hin, hwatched⟩ := Channel.remove_spec (h.removable hd)
  refine ⟨{ c with channel := ch }, ?_, hd, hevents, hin, hwatched⟩
  rw [connectDestroyed, if_neg (by rw [hd]; decide), pure_bind]
  exact bind_of_ok hch _

/-- A destroyed connection does nothing any more. -/
theorem connStep_inert (hgone : s.destroyed = true) (hd : s.conn.state = .kDisconnected)
    (hevents : s.conn.channel.events = 0) {a : Act} (hadm : s.Admissible a) (hsafe : s.SafeReads a)
    {c : TcpConnection} (hok : s.connStep a = .ok c) :
    c.state = s.conn.state ∧ c.channel = s.conn.channel := by
  have hemits : (∃ es, s.connStep a = .ok (s.conn.emits es)) →
      c.state = s.conn.state ∧ c.channel = s.conn.channel := by
    rintro ⟨es, hes⟩
    rw [hok] at hes
    cases hes
    exact ⟨rfl, rfl⟩
  have hnot : s.conn.state.isOpen = false := by
    rw [hd]
    rfl
  cases a with
  | call inLoop k =>
    refine hemits (call_inert hd hevents inLoop (fun hin he ↦ ?_) fun hin he ↦ ?_)
    · exact (hsafe hin).1 hd (he ▸ mem_cons_self)
    · exact (hsafe hin).2 hgone (he ▸ mem_cons_self)
  | functor env =>
    cases hp : s.pending with
    | nil => exact hemits ⟨[], by rw [connStep_functor_nil hp, emits_nil]⟩
    | cons f rest =>
      have hf := hsafe f (by rw [hp]; rfl)
      refine hemits ?_
      rw [connStep_functor_cons hp]
      cases f with
      | sendInLoop message => exact ⟨[], by rw [emits_nil]; exact sendInLoop_of_disconnected hd _ _⟩
      | shutdownInLoop =>
        change ∃ es, Except.ok s.conn.shutdownInLoop = _
        rw [shutdownInLoop]
        split
        · exact ⟨[], by rw [emits_nil]⟩
        · exact ⟨_, rfl⟩
      | forceCloseInLoop =>
        refine ⟨[], ?_⟩
        rw [emits_nil, runFunctor, forceCloseInLoop, if_neg (by rw [hnot]; decide)]
        rfl
      -- `startReadInLoop` would enable the channel, and is excluded
      | startReadInLoop => exact absurd mem_cons_self (hf.1 hd)
      | stopReadInLoop =>
        exact call_inert hd hevents true (k := .stopRead) (fun _ he ↦ by cases he)
          fun _ _ ↦ hf.2 hgone mem_cons_self
      | writeComplete => exact calls_inert hd hevents (hf.1 hd) (hf.2 hgone)
      | highWaterMark len => exact calls_inert hd hevents (hf.1 hd) (hf.2 hgone)
  | event revents env =>
    rw [Admissible, hgone] at hadm
    cases hadm
  | timer =>
    have hforce : s.conn.forceClose = s.conn := if_neg (by rw [hnot]; decide)
    refine hemits ⟨[], ?_⟩
    rw [emits_nil, connStep, hforce, ite_self]
    rfl
  | connectEstablished env =>
    have hconnecting : s.conn.state = .kConnecting := (assert_bind_eq_ok.mp hok).1
    rw [hd] at hconnecting
    cases hconnecting
  | connectDestroyed env =>
    have hno := hadm.2
    rw [hgone] at hno
    cases hno

theorem step_atRest (h : s.AtRest) {a : Act} (hadm : s.Admissible a) (hsafe : s.SafeReads a)
    (hok : s.step a = .ok s') : s'.AtRest := by
  obtain ⟨hconn, hdestroyed, -⟩ := step_eq_ok hok
  cases hgone : s.destroyed with
  | true =>
    obtain ⟨hd, hevents, hin, hwatched⟩ := h.gone hgone
    obtain ⟨hstate, hchannel⟩ := connStep_inert hgone hd hevents hadm hsafe hconn
    have hgone' : s'.destroyed = true := by
      rw [hdestroyed]
      cases a <;> first | rfl | exact hgone
    refine ⟨fun hno ↦ ?_, fun _ ↦ ?_⟩
    · rw [hgone'] at hno
      cases hno
    · rw [hstate, hchannel]
      exact ⟨hd, hevents, hin, hwatched⟩
  | false =>
    by_cases hdestroy : ∃ env, a = .connectDestroyed env
    · obtain ⟨env, rfl⟩ := hdestroy
      obtain ⟨c, hc, hrest⟩ := connectDestroyed_of_settled (h.live hgone) hadm.1 env.onConnection
      obtain rfl : c = s'.conn := by
        have hc' : s.connStep (.connectDestroyed env) = .ok c := hc
        rw [hconn] at hc'
        cases hc'
        rfl
      refine ⟨fun hno ↦ ?_, fun _ ↦ hrest⟩
      rw [hdestroyed] at hno
      cases hno
    · rw [not_exists] at hdestroy
      have hgone' : s'.destroyed = false := by
        rw [hdestroyed]
        cases a with
        | connectDestroyed env => exact absurd rfl (hdestroy env)
        | _ => exact hgone
      refine ⟨fun _ ↦ connStep_settled (h.live hgone) hsafe hdestroy hconn, fun hno ↦ ?_⟩
      rw [hgone'] at hno
      cases hno

/-- **A disconnected connection is not watched.** In every state of a run in which no `startRead`
takes effect on a disconnected connection and no `stopRead` on a destroyed one with `reading_` set:
a disconnected connection has no events, `connectDestroyed` can remove its channel, and after that
the poller does not know the channel. -/
theorem disconnected_not_watched (poller : PollerKind) (wcc hcb : Bool) (mark : ℕ) (s : LoopState)
    (hs : new poller wcc hcb mark = .ok s) (acts : List Act)
    (hacts : Along step (fun s a ↦ s.Admissible a ∧ s.SafeReads a) s acts) (s' : LoopState)
    (hrun : runAll step s acts = .ok s') :
    (s'.conn.state = .kDisconnected → s'.conn.channel.events = Channel.kNoneEvent) ∧
    (s'.conn.state = .kDisconnected → s'.destroyed = false →
      ∀ onConnection, ∃ c, s'.conn.connectDestroyed onConnection = .ok c) ∧
    (s'.destroyed = true → s'.conn.channel.registration.inChannels = false ∧
      s'.conn.channel.registration.watched = none) := by
  obtain ⟨s₀, hs₀, hwf, hstate, -, -, -, -, -, hdestroyed⟩ := new_spec poller wcc hcb mark
  obtain rfl : s₀ = s := by
    rw [hs] at hs₀
    cases hs₀
    rfl
  have hstart : s₀.AtRest := by
    refine ⟨fun _ ↦ ⟨hwf, fun hopen ↦ ?_, fun hd ↦ ?_⟩, fun hno ↦ ?_⟩
    · rw [hstate] at hopen
      cases hopen
    · rw [hstate] at hd
      cases hd
    · rw [hdestroyed] at hno
      cases hno
  have h : s'.AtRest :=
    runAll_induct (fun _ _ _ hI hP hok ↦ step_atRest hI hP.1 hP.2 hok) hstart hacts hrun
  refine ⟨fun hd ↦ ?_, fun hd hlive ks ↦ ?_, fun hgone ↦ (h.gone hgone).2.2⟩
  · cases hgone : s'.destroyed with
    | true => exact (h.gone hgone).2.1
    | false => exact ((h.live hgone).removable hd).1
  · obtain ⟨c, hc, -⟩ := connectDestroyed_of_settled (h.live hlive) hd ks
    exact ⟨c, hc⟩

/-- A connection that hangs up and is left alone. -/
theorem disconnected_not_watched_hup :
    ∃ s s', new .epoll false false 0 = .ok s ∧
      runAll step s [.connectEstablished idleEnv, .event EventMask.POLLHUP idleEnv] = .ok s' ∧
      s'.conn.state = .kDisconnected ∧ s'.conn.channel.events = Channel.kNoneEvent := by
  obtain ⟨s, hs, -, -, -, -, -, -, -, hdestroyed⟩ := new_spec .epoll false false 0
  have hstate : ((new .epoll false false 0 >>= fun s ↦ runAll step s
      [.connectEstablished idleEnv, .event EventMask.POLLHUP idleEnv]).toOption.map
        fun s' ↦ s'.conn.state) = some .kDisconnected := by
    decide +kernel
  rw [bind_of_ok hs] at hstate
  cases hrun : runAll step s [.connectEstablished idleEnv, .event EventMask.POLLHUP idleEnv] with
  | error e =>
    rw [hrun] at hstate
    cases hstate
  | ok s' =>
    have hd : s'.conn.state = .kDisconnected := by
      rw [hrun] at hstate
      exact Option.some.inj hstate
    refine ⟨s, s', hs, hrun, hd,
      (disconnected_not_watched .epoll false false 0 s hs _ ?_ s' hrun).1 hd⟩
    refine ⟨⟨trivial, trivial⟩, fun t ht ↦ ⟨⟨?_, ?_⟩, fun _ _ ↦ trivial⟩⟩
    · exact (step_eq_ok ht).2.1.trans hdestroyed
    · simp [SafeReads, idleEnv]

/-- A `startRead` after the hang-up makes the disconnected connection wait for input, and then its
channel cannot be removed. -/
theorem disconnected_watched_startRead :
    ((new .epoll false false 0 >>= fun s ↦ runAll step s [.connectEstablished idleEnv,
        .event EventMask.POLLHUP idleEnv, .call true .startRead]).toOption.map
      fun s' ↦ (s'.conn.state, s'.conn.channel.events)) =
        some (.kDisconnected, Channel.kReadEvent) ∧
    ((fun _ ↦ ()) <$> (new .epoll false false 0 >>= fun s ↦ runAll step s
      [.connectEstablished idleEnv, .event EventMask.POLLHUP idleEnv, .call true .startRead,
        .connectDestroyed idleEnv])) = .error .assertion := by
  decide +kernel

end LoopState

end Fishnet
