import Fishnet.Net.ConnectorSockets

/-!
# The assertions of the connector

`startInLoop` asserts that the state is `kDisconnected`, `connecting` that there is no channel, and
`handleWrite` that the state is not `kConnected`. The client calls `start` and `stop` whenever it is
asked to, a retry timer calls `startInLoop` whenever it fires, and nothing cancels it.

## What can fail

Only a start can: one by `connect` in the loop thread, one taken from the queue, or one by a timer.
It fails if an attempt is under way or has succeeded, whatever has become of the connection since.
It also fails if the channel of an earlier attempt is waiting to be reset and `connect(2)` answers
that the new attempt is under way. `AcceptsStart` says so by the sockets created, closed and handed
over, and by a note of whether an attempt has succeeded since the last restart.

## What cannot fail

* `handleWrite`: the poller watches the channel only in the state `kConnecting`, and nothing leaves
  that state between `poll` and the event.
* the restart after a lost connection. The functor that resets the channel was queued when the
  socket was handed over. It runs before anything can close the connection, because a functor that
  closes it is queued later, and its own events come in a later iteration.
-/

namespace Fishnet

open List

namespace Connector

variable {c c' : Connector} {errno : Errno} {n : ℕ}

theorem connecting_ok (h : c.channel = none) (fd : ℕ) : ∃ c', c.connecting fd = .ok c' := by
  rw [connecting, assert_bind_of h, enableWriting_new, ok_bind]
  exact ⟨_, rfl⟩

theorem connect_ok (h : errno.isConnecting → c.channel = none) :
    ∃ c', c.connect errno = .ok c' := by
  cases errno with
  | success | EINPROGRESS | EINTR | EISCONN =>
    exact connecting_ok (c := { c with created := c.created + 1 }) (h rfl) c.created
  | _ => exact ⟨_, rfl⟩

theorem startInLoop_ok (hstate : c.state = .kDisconnected)
    (h : c.connectFlag → errno.isConnecting → c.channel = none) :
    ∃ c', c.startInLoop errno = .ok c' := by
  rw [startInLoop, assert_bind_of hstate]
  split_ifs with hflag
  · exact connect_ok (h hflag)
  · exact ⟨c, rfl⟩

theorem restart_ok (h : c.channel = none) : ∃ c', c.restart errno = .ok c' :=
  startInLoop_ok rfl fun _ _ ↦ h

theorem startInLoop_eq_error (h : ¬(c.state = .kDisconnected ∧
    (c.connectFlag → errno.isConnecting → c.channel = none))) :
    c.startInLoop errno = .error .assertion := by
  by_cases hstate : c.state = .kDisconnected
  · rw [and_iff_right hstate, Classical.not_imp, Classical.not_imp] at h
    obtain ⟨hflag, herrno, hchannel⟩ := h
    rw [startInLoop, assert_bind_of hstate, if_pos hflag]
    cases errno with
    | success | EINPROGRESS | EINTR | EISCONN => exact assert_bind_of_not hchannel _
    | _ => cases herrno
  · rw [startInLoop, assert_bind_of_not hstate]

end Connector

namespace TcpClient

open Connector

variable {T : Type} {s s' : TcpClient T} {errno : Errno}

/-! ## The condition -/

/-- The answer of `connect(2)` and the value of `connect_` that `startInLoop` finds if the action is
possible and calls it, other than by a restart. -/
def starts (s : TcpClient T) : Action T → Option (Errno × Bool)
  | .connect errno => some (errno, true)
  | .timer i errno =>
    if s.handling ∧ i < s.connector.timers.length then some (errno, s.connector.connectFlag)
      else none
  | .call errno =>
    match s.handling, s.functors with
    | false, .startInLoop :: _ => some (errno, s.connector.connectFlag)
    | _, _ => none
  | _ => none

/-- What is asserted of a start. -/
def Asserted (s : TcpClient T) (a : Action T) : Prop :=
  ∀ x ∈ s.starts a, s.connector.state = .kDisconnected ∧
    (x.2 → x.1.isConnecting → s.connector.channel = none)

/-- The event by which an attempt succeeds. -/
def Action.succeeds : Action T → Bool
  | .handleEvent revents soError selfConnect =>
    !revents.has (EventMask.POLLERR ||| EventMask.POLLNVAL) && revents.has EventMask.POLLOUT &&
      soError == 0 && !selfConnect
  | _ => false

/-- Whether an attempt has succeeded since the last restart, if `b` says so before the action. -/
def noted (s : TcpClient T) (b : Bool) (a : Action T) : Bool :=
  cond (s.restarts a) false (a.succeeds || b)

def notedStep [DecidableEq T] (x : Bool × TcpClient T) (a : Action T) :
    Except Halt (Bool × TcpClient T) :=
  (x.2.step a).map fun s' ↦ (x.2.noted x.1 a, s')

/-- A start finds no attempt under way, all sockets being closed or handed over, and none that has
succeeded since the last restart. If it makes a new channel, no functor that resets the old one is
queued. -/
def AcceptsStart (x : Bool × TcpClient T) (a : Action T) : Prop :=
  ∀ y ∈ x.2.starts a,
    x.2.connector.closed.length + x.2.connector.handed.length = x.2.connector.created ∧
    x.1 = false ∧ (y.2 → y.1.isConnecting → x.2.connector.resets x.2.functors = 0)

instance (x : Bool × TcpClient T) (a : Action T) : Decidable (AcceptsStart x a) :=
  inferInstanceAs (Decidable (∀ y ∈ x.2.starts a, _))

/-- The client issues the action. -/
def Action.isIssued : Action T → Bool
  | .restart _ => false
  | _ => true

/-! ## The invariant -/

/-- The functors that run before the next `poll`. -/
def batch (s : TcpClient T) : List LoopFunctor :=
  if s.handling then s.connector.pendingFunctors else s.functors

/-- The channel is reset before the connection is closed. -/
def ResetFirst (s : TcpClient T) (fd : ℕ) : Prop :=
  ∃ before after, s.batch = before ++ .resetChannel :: after ∧ .forceCloseInLoop fd ∉ before

structure Calm (b : Bool) (s : TcpClient T) : Prop where
  owned : Owned s
  active : s.active → s.handling ∧ s.connector.state = .kConnecting
  connected : s.connection ≠ none → s.connector.state = .kConnected
  handed : ∀ fd, s.connection = some fd → fd ∈ s.connector.handed
  reset : ∀ fd, s.connection = some fd → s.connector.channel ≠ none → s.established ∧
    ResetFirst s fd
  queue : ∀ fd, .forceCloseInLoop fd ∈ s.functors ++ s.connector.pendingFunctors →
    fd ∈ s.connector.handed
  noted : s.connector.state = .kConnected ↔ b = true

variable {b : Bool}

theorem calm_new (poller : PollerKind) : Calm false (new poller : TcpClient T) where
  owned := owned_new poller
  active h := by cases h
  connected h := absurd rfl h
  handed _ h := by cases h
  reset _ h := by cases h
  queue _ h := by cases h
  noted := iff_of_false nofun nofun

theorem calm_of_no_connection (howned : Owned s)
    (hactive : s.active → s.handling ∧ s.connector.state = .kConnecting)
    (hnone : s.connection = none)
    (hqueue : ∀ fd, .forceCloseInLoop fd ∈ s.functors ++ s.connector.pendingFunctors →
      fd ∈ s.connector.handed)
    (hnoted : s.connector.state = .kConnected ↔ b = true) : Calm b s where
  owned := howned
  active := hactive
  connected h := absurd hnone h
  handed fd h := by rw [hnone] at h; cases h
  reset fd h := by rw [hnone] at h; cases h
  queue := hqueue
  noted := hnoted

theorem Calm.connection_eq_none (h : Calm b s) (hstate : s.connector.state ≠ .kConnected) :
    s.connection = none := by
  by_contra hne
  exact hstate (h.connected hne)

theorem Calm.active_eq_false (h : Calm b s) (hstate : s.connector.state ≠ .kConnecting) :
    s.active = false := by
  rw [← Bool.not_eq_true]
  exact fun hactive ↦ hstate (h.active hactive).2

/-- A start leaves the client without a connection, as it was before. -/
theorem Calm.startInLoop (h : Calm b s) {c c' : Connector} (howned : Owned s')
    (hstate : c.state = s.connector.state) (hhanded : c.handed = s.connector.handed)
    (hpending : c.pendingFunctors = s.connector.pendingFunctors)
    (hok : c.startInLoop errno = .ok c')
    (hconnector : s'.connector = c') (hconnection : s'.connection = s.connection)
    (hactive : s'.active = s.active) (hfunctors : s'.functors ⊆ s.functors) : Calm b s' := by
  obtain ⟨hdisconnected, hne⟩ := state_startInLoop hok
  obtain ⟨hpending', hhanded'⟩ := pendingFunctors_startInLoop hok
  have hs : s.connector.state = .kDisconnected := hstate.symm.trans hdisconnected
  refine calm_of_no_connection howned (fun ha ↦ ?_) ?_ (fun fd hfd ↦ ?_) ?_
  · rw [hactive, h.active_eq_false (by rw [hs]; decide)] at ha
    cases ha
  · rw [hconnection]
    exact h.connection_eq_none (by rw [hs]; decide)
  · rw [hconnector, hhanded', hhanded]
    refine h.queue fd ?_
    rw [hconnector, hpending', hpending] at hfd
    exact mem_append.mpr ((mem_append.mp hfd).imp_left (hfunctors ·))
  · rw [hconnector, ← h.noted, hs]
    exact iff_of_false hne (by decide)

/-- Of what `Calm` speaks about, only the queue of the loop changes: it gets some functors more. The
flags, the timers and the other threads do not matter. -/
structure Queues (s s' : TcpClient T) (fs : List LoopFunctor) : Prop where
  active : s'.active = s.active := by rfl
  handling : s'.handling = s.handling := by rfl
  connection : s'.connection = s.connection := by rfl
  established : s'.established = s.established := by rfl
  functors : s'.functors = s.functors := by rfl
  state : s'.connector.state = s.connector.state := by rfl
  channel : s'.connector.channel = s.connector.channel := by rfl
  handed : s'.connector.handed = s.connector.handed := by rfl
  pending : s'.connector.pendingFunctors = s.connector.pendingFunctors ++ fs := by rfl

theorem ResetFirst.queues {fs : List LoopFunctor} {fd : ℕ} (h : ResetFirst s fd)
    (hq : Queues s s' fs) : ResetFirst s' fd := by
  obtain ⟨before, after, hbatch, hbefore⟩ := h
  unfold ResetFirst
  unfold batch at hbatch ⊢
  rw [hq.handling, hq.functors, hq.pending]
  split_ifs at hbatch ⊢ with hh
  · -- the new functors come behind everything else
    exact ⟨before, after ++ fs, by rw [hbatch, append_assoc, cons_append], hbefore⟩
  · exact ⟨before, after, hbatch, hbefore⟩

theorem Calm.queues {l : List LoopFunctor} (h : Calm b s) (howned : Owned s')
    (hq : Queues s s' l) (hl : ∀ fd, .forceCloseInLoop fd ∈ l → fd ∈ s.connector.handed) :
    Calm b s' where
  owned := howned
  active := by rw [hq.active, hq.handling, hq.state]; exact h.active
  connected := by rw [hq.connection, hq.state]; exact h.connected
  handed := by rw [hq.connection, hq.handed]; exact h.handed
  reset fd hfd hne := by
    rw [hq.connection] at hfd
    rw [hq.channel] at hne
    obtain ⟨hest, hreset⟩ := h.reset fd hfd hne
    exact ⟨hq.established ▸ hest, hreset.queues hq⟩
  queue fd hfd := by
    rw [hq.functors, hq.pending, ← append_assoc, mem_append] at hfd
    rw [hq.handed]
    exact hfd.elim (h.queue fd) (hl fd)
  noted := by rw [hq.state]; exact h.noted

theorem Calm.congr (h : Calm b s) (howned : Owned s') (hq : Queues s s' []) : Calm b s' :=
  h.queues howned hq fun _ hfd ↦ (not_mem_nil hfd).elim

/-! ## What the actions do -/

theorem removeConnection_eq_ok (hok : s.removeConnection errno = .ok s') :
    s'.connection = none ∧ s'.active = s.active ∧ s'.functors = s.functors ∧
      s'.connector.pendingFunctors = s.connector.pendingFunctors ∧
      s'.connector.handed = s.connector.handed := by
  unfold TcpClient.removeConnection at hok
  split_ifs at hok
  · obtain ⟨c, hc, hok⟩ := bind_eq_ok.mp hok
    cases hok
    obtain ⟨hpending, hhanded⟩ := pendingFunctors_startInLoop hc
    exact ⟨rfl, rfl, rfl, hpending, hhanded⟩
  · cases hok
    exact ⟨rfl, rfl, rfl, rfl, rfl⟩

theorem removeConnection_ok (hchannel : s.connector.channel = none) :
    ∃ s', s.removeConnection errno = .ok s' := by
  unfold TcpClient.removeConnection
  split_ifs
  · obtain ⟨c, hc⟩ : ∃ c, s.connector.restart errno = .ok c := restart_ok hchannel
    exact ⟨_, bind_of_ok hc _⟩
  · exact ⟨_, rfl⟩

theorem Calm.removeConnection (h : Calm b s) (howned : Owned s') (hconnection : s.connection ≠ none)
    (hok : s.removeConnection errno = .ok s') :
    Calm (cond (s.retry && s.connectFlag) false b) s' := by
  obtain ⟨hnone, hactive, hfunctors, hpending, hhanded⟩ := removeConnection_eq_ok hok
  have hinactive := h.active_eq_false (by rw [h.connected hconnection]; decide)
  refine calm_of_no_connection howned (fun ha ↦ ?_) hnone ?_ ?_
  · rw [hactive, hinactive] at ha
    cases ha
  · rw [hfunctors, hpending, hhanded]
    exact h.queue
  · unfold TcpClient.removeConnection at hok
    split_ifs at hok with hretry
    · obtain ⟨c, hc, hok⟩ := bind_eq_ok.mp hok
      cases hok
      exact iff_of_false (state_startInLoop hc).2 (by simp [hretry])
    · cases hok
      simpa [hretry] using h.noted

/-- A functor that closes the connection does not come before the one that resets the channel. -/
theorem Calm.channel_of_forceClose (h : Calm b s) (hhandling : s.handling = false) {fd : ℕ}
    {functors : List LoopFunctor} (hf : s.functors = .forceCloseInLoop fd :: functors)
    (hconnection : s.connection = some fd) : s.connector.channel = none := by
  by_contra hne
  obtain ⟨-, before, after, hbatch, hbefore⟩ := h.reset fd hconnection hne
  rw [batch, hhandling, if_neg Bool.false_ne_true, hf] at hbatch
  cases before with
  | nil => cases hbatch
  | cons f before =>
    rw [cons_append, List.cons.injEq] at hbatch
    exact hbefore (hbatch.1 ▸ mem_cons_self)

/-- At the end of a batch the channel of a connection is gone. -/
theorem Calm.channel_of_batch_end (h : Calm b s) (hhandling : s.handling = false)
    (hfunctors : s.functors = []) (hconnection : s.connection ≠ none) :
    s.connector.channel = none := by
  by_contra hne
  obtain ⟨fd, hfd⟩ := Option.ne_none_iff_exists'.mp hconnection
  obtain ⟨-, before, after, hbatch, -⟩ := h.reset fd hfd hne
  rw [batch, hhandling, if_neg Bool.false_ne_true, hfunctors] at hbatch
  exact absurd hbatch.symm (append_ne_nil_of_right_ne_nil _ (cons_ne_nil _ _))

/-- The poller watches the channel only in the state `kConnecting`. -/
theorem Owned.state_of_isWatched (h : Owned s) (hwatched : s.isWatched) :
    s.connector.state = .kConnecting := by
  by_contra hne
  unfold isWatched at hwatched
  rcases h.connector.settled hne with ⟨hnone, -⟩ | ⟨⟨fd, hfd⟩, -⟩
  · rw [hnone] at hwatched
    cases hwatched
  · rw [hfd] at hwatched
    cases hwatched

/-- The event of a socket in the state `kConnecting`. If the socket is handed over, the functor that
resets the channel is the last in the queue. -/
theorem Calm.handleEvent (h : Calm b s) (hhandling : s.handling)
    (hstate : s.connector.state = .kConnecting)
    {c : Connector} (hs : Connector.SettlesOrKeeps s.connector c)
    (howned : Owned { s.newConnection c with active := false })
    {b' : Bool} (hnoted : c.state = .kConnected ↔ b' = true) :
    Calm b' { s.newConnection c with active := false } := by
  have hnone := h.connection_eq_none (by rw [hstate]; decide)
  have hsame (hhanded : c.handed = s.connector.handed)
      (hpending : ∀ fd, .forceCloseInLoop fd ∈ s.functors ++ c.pendingFunctors →
        .forceCloseInLoop fd ∈ s.functors ++ s.connector.pendingFunctors) :
      Calm b' { s.newConnection c with active := false } := by
    have hnew : s.newConnection c = { s with connector := c } := by
      rw [newConnection, hhanded, drop_length]
    rw [hnew] at howned ⊢
    refine calm_of_no_connection howned (fun ha ↦ by cases ha) hnone (fun fd hfd ↦ ?_) hnoted
    rw [hhanded]
    exact h.queue fd (hpending fd hfd)
  rcases hs with rfl | ⟨-, fd, hfd, hsettled⟩
  · exact hsame rfl fun _ hfd ↦ hfd
  have hpending : ∀ fd, .forceCloseInLoop fd ∈ s.functors ++ c.pendingFunctors →
      .forceCloseInLoop fd ∈ s.functors ++ s.connector.pendingFunctors := by
    intro fd hfd
    rw [hsettled.pendingFunctors, ← append_assoc, mem_append] at hfd
    exact hfd.elim id fun hfd ↦ by cases mem_singleton.mp hfd
  rcases hsettled.sockets with ⟨-, hhanded⟩ | ⟨hconnected, -, hhanded⟩
  · exact hsame hhanded hpending
  · -- the socket was held, so it is a new one for the connection
    have hfresh : fd ∉ s.connector.handed :=
      count_eq_zero.mp (h.owned.connector.held_fresh hstate hfd).2.2
    have hnew : s.newConnection c =
        { s with connector := c, connection := some fd, established := true } := by
      rw [newConnection, hhanded, drop_left]
    rw [hnew] at howned ⊢
    refine ⟨howned, fun ha ↦ ?_, fun _ ↦ hconnected, fun fd' hfd' ↦ ?_, fun fd' hfd' _ ↦
      ⟨rfl, s.connector.pendingFunctors, [], ?_, ?_⟩, fun fd' hfd' ↦ ?_, hnoted⟩
    · cases ha
    · rw [hhanded, ← Option.some.inj hfd']
      exact mem_append_right _ (mem_singleton_self fd)
    · rw [batch, if_pos hhandling]
      exact hsettled.pendingFunctors
    · intro hmem
      rw [← Option.some.inj hfd'] at hmem
      exact hfresh (h.queue fd (mem_append_right _ hmem))
    · rw [hhanded]
      exact mem_append_left _ (h.queue fd' (hpending fd' hfd'))

theorem Calm.next (h : Calm b s) (hhandling : s.handling = false) {f : LoopFunctor}
    {functors : List LoopFunctor} (hf : s.functors = f :: functors) (hne : f ≠ .resetChannel) :
    Calm b { s with functors := functors } where
  owned := h.owned.next hhandling hf hne
  active := h.active
  connected := h.connected
  handed := h.handed
  reset fd hfd hchannel := by
    obtain ⟨hest, before, after, hbatch, hbefore⟩ := h.reset fd hfd hchannel
    refine ⟨hest, ?_⟩
    unfold ResetFirst
    unfold batch at hbatch ⊢
    rw [hhandling, if_neg Bool.false_ne_true] at hbatch ⊢
    rw [hf] at hbatch
    cases before with
    | nil => exact absurd (List.cons.inj hbatch).1 hne
    | cons g before =>
      exact ⟨before, after, (List.cons.inj hbatch).2,
        fun hmem ↦ hbefore (mem_cons_of_mem g hmem)⟩
  queue fd hfd := by
    refine h.queue fd ?_
    rw [hf]
    exact mem_cons_of_mem f hfd
  noted := h.noted

theorem Calm.active_of_calling (h : Calm b s) (hhandling : s.handling = false) :
    s.active = false := by
  rw [← Bool.not_eq_true]
  intro ha
  rw [(h.active ha).1] at hhandling
  cases hhandling

theorem Calm.call (h : Calm b s) (hhandling : s.handling = false) (howned : Owned s')
    (hok : s.call errno = .ok s') : Calm (s.noted b (.call errno)) s' := by
  obtain ⟨f, functors, hf, hok⟩ := call_eq_ok hok
  rw [TcpClient.noted, restarts, hf]
  cases f with
  | startInLoop =>
    obtain ⟨c, hc, hok⟩ := bind_eq_ok.mp hok
    cases hok
    exact (h.next hhandling hf (by decide)).startInLoop howned rfl rfl rfl hc rfl rfl rfl
      (List.Subset.refl _)
  | stopInLoop =>
    obtain ⟨c, hc, hok⟩ := bind_eq_ok.mp hok
    cases hok
    have ht := h.next hhandling hf (by decide)
    rcases ht.owned.connector.stopInLoop_eq_ok hc with rfl | ⟨hstate, fd, -, hsettled⟩
    · exact ht
    · -- an attempt was under way, so there is no connection
      refine calm_of_no_connection howned (fun ha ↦ ?_)
        (h.connection_eq_none (by rw [hstate]; decide)) (fun fd' hfd' ↦ ?_)
        ((connected_stopInLoop hc).trans ht.noted)
      · rw [h.active_of_calling hhandling] at ha
        cases ha
      · rw [hsettled.pendingFunctors, ← append_assoc, mem_append] at hfd'
        refine hsettled.handed_subset (ht.queue fd' (hfd'.elim id fun hfd' ↦ ?_))
        cases mem_singleton.mp hfd'
  | resetChannel =>
    obtain ⟨c, hc, hok⟩ := bind_eq_ok.mp hok
    cases hok
    have hconnector := h.owned.connector
    rw [hf, resets_cons, if_pos rfl] at hconnector
    obtain ⟨-, hreset, -⟩ := hconnector.resetChannel
    rw [hreset] at hc
    cases hc
    refine ⟨howned, h.active, h.connected, h.handed, fun _ _ hne ↦ absurd rfl hne, fun fd hfd ↦ ?_,
      h.noted⟩
    refine h.queue fd ?_
    rw [hf]
    exact mem_cons_of_mem _ hfd
  | forceCloseInLoop fd =>
    have ht := h.next hhandling hf (by simp)
    simp only [runFunctor] at hok
    split_ifs at hok with hconnection
    · dsimp only
      rw [beq_iff_eq.mpr hconnection, Bool.true_and]
      refine ht.removeConnection howned ?_ hok
      exact hconnection ▸ Option.some_ne_none fd
    · cases hok
      dsimp only
      rw [beq_eq_false_iff_ne.mpr hconnection, Bool.false_and]
      exact ht

variable [DecidableEq T] {a : Action T}

/-- The client restarts its connector only when it has lost a connection. -/
theorem Calm.keepsAttempt (h : Calm b s) (ha : a.isIssued) (hok : s.step a = .ok s') :
    s.KeepsAttempt a := by
  intro hrestarts
  have hconnection : s.connection ≠ none → s.connector.state ≠ .kConnecting := by
    intro hne
    rw [h.connected hne]
    decide
  cases a with
  | restart errno => cases ha
  | closeEvent errno => exact hconnection (attempt_eq_ok.mp hok).1.2.1
  | call errno =>
    simp only [restarts] at hrestarts
    split at hrestarts
    · rename_i fd functors hf
      rw [Bool.and_eq_true, beq_iff_eq] at hrestarts
      exact hconnection (hrestarts.1 ▸ Option.some_ne_none fd)
    · cases hrestarts
  | _ => cases hrestarts

theorem Calm.step (h : Calm b s) (ha : a.isIssued) (hok : s.step a = .ok s') :
    Calm (s.noted b a) s' := by
  have howned : Owned s' := h.owned.step (h.keepsAttempt ha hok) hok
  cases a with
  | connect errno =>
    obtain ⟨-, hok⟩ := attempt_eq_ok.mp hok
    obtain ⟨c, hc, hok⟩ := bind_eq_ok.mp hok
    cases hok
    exact h.startInLoop (c := { s.connector with connectFlag := true }) howned rfl rfl rfl hc
      rfl rfl rfl (List.Subset.refl _)
  | stop =>
    obtain ⟨-, rfl⟩ := guarded_eq_ok.mp hok
    exact h.queues howned (l := [.stopInLoop]) {} (by simp)
  | disconnect | enableRetry | enter t call =>
    obtain ⟨-, rfl⟩ := guarded_eq_ok.mp hok
    exact h.congr howned { pending := (append_nil _).symm }
  | advance t =>
    simp only [TcpClient.step] at hok
    split at hok
    · cases hok
    rename_i step steps hsteps
    cases hok
    cases step with
    | setClientConnect b => exact h.congr howned { pending := (append_nil _).symm }
    | setConnectorConnect b => exact h.congr howned { pending := (append_nil _).symm }
    | queueStartInLoop => exact h.queues howned (l := [.startInLoop]) {} (by simp)
    | queueStopInLoop => exact h.queues howned (l := [.stopInLoop]) {} (by simp)
  | poll active =>
    obtain ⟨⟨hhandling, hfunctors, hwatched⟩, rfl⟩ := guarded_eq_ok.mp hok
    refine ⟨howned, fun ha ↦ ⟨rfl, h.owned.state_of_isWatched (hwatched ha)⟩, h.connected, h.handed,
      fun fd hfd hne ↦ ?_, h.queue, h.noted⟩
    have hconnection : s.connection ≠ none := fun hnone ↦ by
      rw [hnone] at hfd
      cases hfd
    exact absurd (h.channel_of_batch_end hhandling hfunctors hconnection) hne
  | handleEvent revents soError selfConnect =>
    obtain ⟨⟨hhandling, hactive⟩, hok⟩ := attempt_eq_ok.mp hok
    obtain ⟨c, hc, hok⟩ := bind_eq_ok.mp hok
    cases hok
    have hstate := (h.active hactive).2
    obtain ⟨⟨fd, hfd⟩, -⟩ := h.owned.connector.connecting hstate
    refine h.handleEvent hhandling hstate (h.owned.connector.handleEvent_eq_ok hc) howned ?_
    have hfalse : b = false := by simpa [hstate] using h.noted
    rw [connected_handleEvent hstate hfd hc]
    simp [TcpClient.noted, restarts, Action.succeeds, hfalse, and_assoc]
  | timer i errno =>
    obtain ⟨-, hok⟩ := attempt_eq_ok.mp hok
    obtain ⟨c, hc, hok⟩ := bind_eq_ok.mp hok
    cases hok
    exact h.startInLoop (c := { s.connector with timers := s.connector.timers.eraseIdx i }) howned
      rfl rfl rfl hc rfl rfl rfl (List.Subset.refl _)
  | closeEvent errno =>
    obtain ⟨⟨-, hconnection, -⟩, hok⟩ := attempt_eq_ok.mp hok
    exact h.removeConnection howned hconnection hok
  | forceClose fd =>
    obtain ⟨hconnection, rfl⟩ := guarded_eq_ok.mp hok
    refine h.queues howned (l := [.forceCloseInLoop fd]) {} fun fd' hf ↦ ?_
    cases mem_singleton.mp hf
    exact h.handed fd hconnection
  | swap =>
    obtain ⟨⟨hhandling, hactive⟩, rfl⟩ := guarded_eq_ok.mp hok
    have hfunctors := h.owned.functors hhandling
    refine ⟨howned, fun ha ↦ ?_, h.connected, h.handed, fun fd hfd hne ↦ ?_, fun fd hfd ↦ ?_,
      h.noted⟩
    · exact absurd ha (by simp [hactive])
    · obtain ⟨hest, before, after, hbatch, hbefore⟩ := h.reset fd hfd hne
      rw [batch, if_pos hhandling] at hbatch
      exact ⟨hest, before, after, hbatch, hbefore⟩
    · refine h.queue fd ?_
      rw [hfunctors]
      exact append_nil s.connector.pendingFunctors ▸ hfd
  | call errno =>
    obtain ⟨⟨hhandling, -⟩, hok⟩ := attempt_eq_ok.mp hok
    exact h.call hhandling howned hok
  | restart errno => cases ha

/-! ## No assertion fails -/

omit [DecidableEq T] in
theorem Calm.call_ok (h : Calm b s) (hhandling : s.handling = false) (hne : s.functors ≠ [])
    (haccepts : s.Asserted (.call errno)) : ∃ s', s.call errno = .ok s' := by
  obtain ⟨f, functors, hf⟩ := exists_cons_of_ne_nil hne
  simp only [TcpClient.call, hf]
  cases f with
  | startInLoop =>
    have hstarts : s.starts (.call errno) = some (errno, s.connector.connectFlag) := by
      simp only [starts, hhandling, hf]
    obtain ⟨hstate, hchannel⟩ := haccepts _ hstarts
    obtain ⟨c, hc⟩ := startInLoop_ok hstate hchannel
    exact ⟨_, bind_of_ok hc _⟩
  | stopInLoop =>
    obtain ⟨c, hc, -⟩ := h.owned.connector.stopInLoop
    exact ⟨_, bind_of_ok hc _⟩
  | resetChannel =>
    have hconnector := h.owned.connector
    rw [hf, resets_cons, if_pos rfl] at hconnector
    exact ⟨_, bind_of_ok hconnector.resetChannel.2.1 _⟩
  | forceCloseInLoop fd =>
    simp only [runFunctor]
    split_ifs with hconnection
    · exact removeConnection_ok (h.channel_of_forceClose hhandling hf hconnection)
    · exact ⟨_, rfl⟩

theorem Calm.step_ne_fault (h : Calm b s) (ha : a.isIssued) (haccepts : s.Asserted a)
    (f : Fault) : s.step a ≠ .error (.fault f) := by
  cases a with
  | connect errno =>
    refine attempt_ne_fault (fun _ ↦ ?_) f
    obtain ⟨hstate, hchannel⟩ := haccepts _ rfl
    obtain ⟨c, hc⟩ :=
      startInLoop_ok (c := { s.connector with connectFlag := true }) hstate hchannel
    exact ⟨_, bind_of_ok hc _⟩
  | stop | disconnect | enableRetry | enter t call | poll active | forceClose fd | swap =>
    exact guarded_ne_fault f
  | advance t =>
    simp only [TcpClient.step]
    split <;> simp
  | handleEvent revents soError selfConnect =>
    refine attempt_ne_fault (fun hactive ↦ ?_) f
    obtain ⟨c, hc, -⟩ := h.owned.connector.handleEvent
      (by rw [(h.active hactive.2).2]; decide) revents
      soError selfConnect
    exact ⟨_, bind_of_ok hc _⟩
  | timer i errno =>
    refine attempt_ne_fault (fun hguard ↦ ?_) f
    have hstarts : s.starts (.timer i errno) = some (errno, s.connector.connectFlag) :=
      if_pos hguard
    obtain ⟨hstate, hchannel⟩ := haccepts _ hstarts
    obtain ⟨c, hc⟩ := startInLoop_ok
      (c := { s.connector with timers := s.connector.timers.eraseIdx i }) hstate hchannel
    exact ⟨_, bind_of_ok hc _⟩
  | closeEvent errno =>
    refine attempt_ne_fault (fun hguard ↦ removeConnection_ok ?_) f
    obtain ⟨-, hconnection, hestablished⟩ := hguard
    -- a connection of an earlier iteration has no channel left
    by_contra hne
    obtain ⟨fd, hfd⟩ := Option.ne_none_iff_exists'.mp hconnection
    rw [(h.reset fd hfd hne).1] at hestablished
    cases hestablished
  | call errno =>
    exact attempt_ne_fault (fun hguard ↦ h.call_ok hguard.1 hguard.2 haccepts) f
  | restart errno => cases ha

theorem step_of_not_asserted (hnot : ¬s.Asserted a) : s.step a = .error (.fault .assertion) := by
  rw [Asserted, not_forall] at hnot
  obtain ⟨⟨errno, flag⟩, hnot⟩ := hnot
  rw [Classical.not_imp] at hnot
  obtain ⟨hstarts, hnot⟩ := hnot
  cases a with
  | connect errno' =>
    cases hstarts
    have herror := startInLoop_eq_error
      (c := { s.connector with connectFlag := true }) hnot
    refine attempt_eq_fault.mpr ⟨trivial, ?_⟩
    rw [TcpClient.connect, Connector.start, herror]
    rfl
  | timer i errno' =>
    simp only [starts] at hstarts
    split_ifs at hstarts with hguard
    · cases hstarts
      have herror := startInLoop_eq_error
        (c := { s.connector with timers := s.connector.timers.eraseIdx i }) hnot
      refine attempt_eq_fault.mpr ⟨hguard, ?_⟩
      rw [TcpClient.timer, herror]
      rfl
    · cases hstarts
  | call errno' =>
    simp only [starts] at hstarts
    split at hstarts
    · rename_i functors hhandling hf
      cases hstarts
      have herror := startInLoop_eq_error hnot
      refine attempt_eq_fault.mpr ⟨⟨hhandling, by rw [hf]; exact cons_ne_nil _ _⟩, ?_⟩
      simp only [TcpClient.call, hf, runFunctor, herror]
      rfl
    · cases hstarts
  | _ => cases hstarts

/-! ## The history -/

omit [DecidableEq T] in
theorem Calm.acceptsStart_iff (h : Calm b s) : AcceptsStart (b, s) a ↔ s.Asserted a := by
  have hlength := h.owned.connector.sockets.length_eq
  rw [length_append, length_append, length_range] at hlength
  refine forall₂_congr fun x _ ↦ ?_
  dsimp only
  cases hstate : s.connector.state with
  | kDisconnected =>
    rw [held_of_ne (by rw [hstate]; decide), length_nil, Nat.zero_add] at hlength
    have hfalse : b = false := by simpa [hstate] using h.noted
    rw [and_iff_right hlength, and_iff_right hfalse, and_iff_right rfl]
    rcases h.owned.connector.settled (by rw [hstate]; decide) with ⟨hnone, hn⟩ | ⟨⟨fd, hfd⟩, hn⟩
    · simp [hnone, hn]
    · simp [hfd, hn]
  | kConnecting =>
    obtain ⟨⟨fd, hfd⟩, -⟩ := h.owned.connector.connecting hstate
    rw [Connector.Owned.held_connecting hstate hfd, length_singleton] at hlength
    exact iff_of_false (by omega) (by simp)
  | kConnected =>
    have htrue := h.noted.mp hstate
    exact iff_of_false (by simp [htrue]) (by simp)

theorem along_noted_iff {actions : List (Action T)} (h : Calm b s)
    (hissued : ∀ a ∈ actions, a.isIssued) :
    Along notedStep AcceptsStart (b, s) actions ↔ Along step Asserted s actions := by
  induction actions generalizing s b with
  | nil => exact Iff.rfl
  | cons a as ih =>
    obtain ⟨ha, has⟩ := forall_mem_cons.mp hissued
    refine and_congr h.acceptsStart_iff ⟨fun hnext s' hs' ↦ ?_, fun hnext x hx ↦ ?_⟩
    · exact (ih (h.step ha hs') has).mp (hnext _ (map_eq_ok.mpr ⟨s', hs', rfl⟩))
    · obtain ⟨s', hs', rfl⟩ := map_eq_ok.mp hx
      exact (ih (h.step ha hs') has).mpr (hnext s' hs')

/-- **When the assertions of the connector hold.** In a run of a client, whatever the kernel answers
and however the threads interleave, no assertion fails exactly if every start (by `connect` in the
loop thread, from the queue, or by a timer) comes when no attempt is under way, none has succeeded
since the last restart and, should `connect(2)` answer that the new attempt is under way, the
channel of the last one has been reset. -/
theorem assertions_hold_iff {poller : PollerKind} {actions : List (Action T)}
    (hissued : ∀ a ∈ actions, a.isIssued) :
    (∀ f, runAll step (new poller) actions ≠ .error (.fault f)) ↔
      Along notedStep AcceptsStart (false, new poller) actions := by
  rw [along_noted_iff (calm_new poller) hissued]
  constructor
  · intro hne
    exact along_of_runAll_ne (I := fun _ ↦ True) (Q := fun _ ↦ True)
      (fun _ _ _ _ _ _ _ ↦ trivial) (fun _ _ _ _ hnot ↦ step_of_not_asserted hnot)
      (fun _ _ ↦ trivial) trivial (hne .assertion)
  · intro halong f
    exact runAll_ne_error (I := fun s ↦ ∃ b, Calm b s)
      (fun _ _ _ h hP hok ↦ h.elim fun _ hcalm ↦ ⟨_, hcalm.step hP.1 hok⟩)
      (fun _ _ h hP ↦ h.elim fun _ hcalm ↦ hcalm.step_ne_fault hP.1 hP.2 f) ⟨_, calm_new poller⟩
      (along_and_of_forall hissued halong)

/-- A connection is lost and the client retries. The first retry is refused. -/
def reconnect : List (Action Unit) :=
  .enableRetry :: attemptOnce ++
    [.poll false, .closeEvent .ECONNREFUSED, .timer 0 .EINPROGRESS, .swap, .poll true,
      .handleEvent (EventMask.POLLERR ||| EventMask.POLLOUT) 0 false]

theorem assertions_hold_reconnect : (∀ a ∈ reconnect, a.isIssued) ∧
    (∃ s, runAll step (new .epoll) reconnect = .ok s ∧ s.connector.closed = [1, 2]) ∧
    ∀ f, runAll step (new .epoll) reconnect ≠ .error (.fault f) :=
  ⟨by decide, ⟨_, rfl, rfl⟩, (@assertions_hold_iff Unit _ .epoll reconnect (by decide)).mpr
    (by decide)⟩

/-- `connect` fails after a finished connection, and after a `stop` whose functor has run. -/
theorem assertions_fail_connect_again :
    (∀ a ∈ attemptOnce ++ [.poll false, .closeEvent .success, .connect .EINPROGRESS], a.isIssued) ∧
    runAll step (new .epoll)
      (attemptOnce ++ [.poll false, .closeEvent .success, .connect .EINPROGRESS]) =
        .error (.fault .assertion) ∧
    runAll step (new .epoll : TcpClient Unit)
      [.connect .EINPROGRESS, .stop, .swap, .call .success, .poll false, .connect .EINPROGRESS] =
        .error (.fault .assertion) :=
  ⟨by decide, rfl, rfl⟩

end TcpClient

end Fishnet
