import Fishnet.Net.TcpClient

/-!
# Who owns a socket

A socket that the connector has created is held by its channel, has been closed, or has been handed
over. There are many ways out of the first situation. All of them take the channel out of the loop,
queue its destruction, and then close the socket or hand it over. So one lemma covers them
(`Owned.settle`).

## The channel and the queue

While the state is `kConnecting` the channel waits for the socket to become writable, and no functor
that resets it is queued. In the other states the channel is gone, or it is out of the loop and
exactly one such functor is queued. A second channel can only be made when the first is gone, so a
functor never resets a channel it was not meant for.

## What goes wrong

`restart` sets the state to `kDisconnected` without looking. In the state `kConnecting` this leaves
a socket that nobody will ever close, with its channel still in the loop. The result is that nothing
else goes wrong.
-/

namespace Fishnet

open List

/-! ## The two conditions of a channel -/

namespace Connector

variable (poller : PollerKind)

/-- A channel that waits for its socket to become writable. -/
def waiting : Channel :=
  ⟨poller, Channel.kWriteEvent, true, ⟨.kAdded, true, some Channel.kWriteEvent⟩⟩

/-- A channel taken out of the loop. -/
def retired : Channel :=
  ⟨poller, Channel.kNoneEvent, false, ⟨if poller = .poll then .kAdded else .kNew, false, none⟩⟩

theorem enableWriting_new : (Channel.new poller).enableWriting = .ok (waiting poller) := by
  cases poller <;> rfl

theorem remove_waiting :
    ((waiting poller).disableAll >>= Channel.remove) = .ok (retired poller) := by
  cases poller <;> rfl

variable {c c' : Connector} {errno : Errno} {fd n : ℕ}

/-! ## What the functions do -/

theorem connecting_eq_ok (h : c.connecting fd = .ok c') :
    c.channel = none ∧
      c' = { c with state := .kConnecting, channel := some ⟨fd, waiting c.poller⟩ } := by
  obtain ⟨hnone, h⟩ := assert_bind_eq_ok.mp h
  rw [enableWriting_new, ok_bind] at h
  exact ⟨hnone, (Except.ok.inj h).symm⟩

/-- The socket is closed, and perhaps a timer is set. -/
structure Closes (c : Connector) (fd : ℕ) (c' : Connector) : Prop where
  poller : c'.poller = c.poller
  state : c'.state = .kDisconnected
  channel : c'.channel = c.channel
  pendingFunctors : c'.pendingFunctors = c.pendingFunctors
  created : c'.created = c.created
  closed : c'.closed = c.closed ++ [fd]
  handed : c'.handed = c.handed

theorem closes_retry (c : Connector) (fd : ℕ) : Closes c fd (c.retry fd) := by
  unfold retry
  split_ifs <;> exact ⟨rfl, rfl, rfl, rfl, rfl, rfl, rfl⟩

theorem closes_close (h : c.state = .kDisconnected) (fd : ℕ) : Closes c fd (c.close fd) :=
  ⟨rfl, h, rfl, rfl, rfl, rfl, rfl⟩

theorem connect_eq_ok (hstate : c.state = .kDisconnected) (h : c.connect errno = .ok c') :
    (errno.isConnecting ∧ c.channel = none ∧ c' =
      { c with
        created := c.created + 1, state := .kConnecting
        channel := some ⟨c.created, waiting c.poller⟩ }) ∨
    (errno.isConnecting = false ∧ Closes { c with created := c.created + 1 } c.created c') := by
  cases errno with
  | success | EINPROGRESS | EINTR | EISCONN =>
    obtain ⟨hnone, rfl⟩ := connecting_eq_ok h
    exact .inl ⟨rfl, hnone, rfl⟩
  | EAGAIN | EADDRINUSE | ECONNREFUSED | ENETUNREACH =>
    cases h
    exact .inr ⟨rfl, closes_retry _ _⟩
  | EACCES | EPERM | EAFNOSUPPORT | EALREADY | EBADF | EFAULT | ENOTSOCK | other n =>
    cases h
    exact .inr ⟨rfl, closes_close (c := { c with created := c.created + 1 }) hstate _⟩

theorem startInLoop_eq_ok (h : c.startInLoop errno = .ok c') :
    c.state = .kDisconnected ∧
      ((c.connectFlag = false ∧ c' = c) ∨ (c.connectFlag = true ∧ c.connect errno = .ok c')) := by
  obtain ⟨hstate, h⟩ := assert_bind_eq_ok.mp h
  refine ⟨hstate, ?_⟩
  split_ifs at h with hflag
  · exact .inr ⟨hflag, h⟩
  · exact .inl ⟨Bool.not_eq_true _ ▸ hflag, (Except.ok.inj h).symm⟩

/-- After `removeAndResetChannel`. -/
def retire (c : Connector) (fd : ℕ) : Connector :=
  { c with
    channel := some ⟨fd, retired c.poller⟩,
    pendingFunctors := c.pendingFunctors ++ [.resetChannel] }

theorem removeAndResetChannel_of_waiting (h : c.channel = some ⟨fd, waiting c.poller⟩) :
    c.removeAndResetChannel = .ok (fd, c.retire fd) := by
  have hremove := remove_waiting c.poller
  obtain ⟨channel, hdisable, hremove⟩ := bind_eq_ok.mp hremove
  simp only [removeAndResetChannel, h, hdisable, ok_bind, hremove]
  rfl

/-! ## The invariant -/

/-- The sockets held. -/
def held (c : Connector) : List ℕ :=
  if c.state = .kConnecting then c.channel.toList.map SocketChannel.fd else []

/-- The channel fits the state and the number `n` of queued functors that will reset it, and the
sockets created are held, closed and handed over, each once. -/
structure Owned (c : Connector) (n : ℕ) : Prop where
  connecting : c.state = .kConnecting →
    (∃ fd, c.channel = some ⟨fd, waiting c.poller⟩) ∧ n = 0
  settled : c.state ≠ .kConnecting → (c.channel = none ∧ n = 0) ∨
    ((∃ fd, c.channel = some ⟨fd, retired c.poller⟩) ∧ n = 1)
  sockets : (c.held ++ (c.closed ++ c.handed)).Perm (List.range c.created)

theorem owned_new : Owned (new poller) 0 where
  connecting h := by cases h
  settled _ := .inl ⟨rfl, rfl⟩
  sockets := .refl _

/-- The timers, the delay and the flag do not matter, and neither does the difference between the
two settled states. -/
theorem Owned.congr (h : Owned c n) (hpoller : c'.poller = c.poller)
    (hstate : c'.state = .kConnecting ↔ c.state = .kConnecting) (hchannel : c'.channel = c.channel)
    (hcreated : c'.created = c.created) (hclosed : c'.closed = c.closed)
    (hhanded : c'.handed = c.handed) : Owned c' n where
  connecting hc := by
    rw [hchannel, hpoller]
    exact h.connecting (hstate.mp hc)
  settled hc := by
    rw [hchannel, hpoller]
    exact h.settled (mt hstate.mpr hc)
  sockets := by
    have hheld : c'.held = c.held := by simp only [held, hstate, hchannel]
    rw [hheld, hclosed, hhanded, hcreated]
    exact h.sockets

theorem Owned.setConnectFlag (h : Owned c n) (b : Bool) : Owned { c with connectFlag := b } n :=
  h.congr rfl Iff.rfl rfl rfl rfl rfl

theorem Owned.setTimers (h : Owned c n) (timers : List ℕ) : Owned { c with timers := timers } n :=
  h.congr rfl Iff.rfl rfl rfl rfl rfl

theorem held_of_ne (h : c.state ≠ .kConnecting) : c.held = [] := if_neg h

theorem Owned.held_connecting (hstate : c.state = .kConnecting)
    (hchannel : c.channel = some ⟨fd, waiting c.poller⟩) : c.held = [fd] := by
  rw [held, if_pos hstate, hchannel]
  rfl

/-- **A new socket.** It is held or closed. -/
theorem Owned.connect (h : Owned c n) (hstate : c.state = .kDisconnected)
    (hok : c.connect errno = .ok c') : Owned c' n := by
  have hne : c.state ≠ .kConnecting := by rw [hstate]; decide
  have hsockets := h.sockets
  rw [held_of_ne hne, nil_append] at hsockets
  have hperm : (c.created :: (c.closed ++ c.handed)).Perm (List.range (c.created + 1)) := by
    rw [range_succ]
    exact (perm_append_singleton _ _).symm.trans (hsockets.append_right _)
  rcases connect_eq_ok hstate hok with ⟨-, hnone, rfl⟩ | ⟨-, hcloses⟩
  · refine ⟨fun _ ↦ ⟨⟨_, rfl⟩, ?_⟩, fun hne' ↦ absurd rfl hne', hperm⟩
    rcases h.settled hne with ⟨-, hn⟩ | ⟨⟨fd, hchannel⟩, -⟩
    · exact hn
    · rw [hnone] at hchannel
      cases hchannel
  · have hstate' : c'.state ≠ .kConnecting := by rw [hcloses.state]; decide
    refine ⟨fun hc ↦ absurd hc hstate', fun _ ↦ ?_, ?_⟩
    · rw [hcloses.channel, hcloses.poller]
      exact h.settled hne
    · rw [held_of_ne hstate', hcloses.closed, hcloses.handed, hcloses.created, nil_append]
      refine List.Perm.trans ?_ hperm
      rw [append_assoc]
      exact perm_middle

theorem Owned.startInLoop (h : Owned c n) (hok : c.startInLoop errno = .ok c') : Owned c' n := by
  obtain ⟨hstate, ⟨-, rfl⟩ | ⟨-, hconnect⟩⟩ := startInLoop_eq_ok hok
  · exact h
  · exact h.connect hstate hconnect

theorem Owned.restart (h : Owned c n) (hstate : c.state ≠ .kConnecting)
    (hok : c.restart errno = .ok c') : Owned c' n := by
  have hreset : Owned { c with
      state := .kDisconnected, retryDelaysMs := kInitRetryDelayMs, connectFlag := true } n :=
    h.congr rfl (iff_of_false (by simp) hstate) rfl rfl rfl rfl
  exact hreset.startInLoop hok

/-- **The way out.** The channel has been taken out of the loop, and the socket it held has been
closed or handed over. -/
structure Settled (c : Connector) (fd : ℕ) (c' : Connector) : Prop where
  poller : c'.poller = c.poller
  state : c'.state ≠ .kConnecting
  channel : c'.channel = some ⟨fd, retired c.poller⟩
  pendingFunctors : c'.pendingFunctors = c.pendingFunctors ++ [.resetChannel]
  created : c'.created = c.created
  sockets : (c'.closed = c.closed ++ [fd] ∧ c'.handed = c.handed) ∨
    (c'.state = .kConnected ∧ c'.closed = c.closed ∧ c'.handed = c.handed ++ [fd])

theorem Settled.handed_subset (h : Settled c fd c') : c.handed ⊆ c'.handed := by
  rcases h.sockets with ⟨-, hhanded⟩ | ⟨-, -, hhanded⟩
  · exact hhanded ▸ List.Subset.refl _
  · exact hhanded ▸ subset_append_left _ _

theorem Owned.settle (h : Owned c n) (hstate : c.state = .kConnecting)
    (hfd : c.channel = some ⟨fd, waiting c.poller⟩) (hs : Settled c fd c') : Owned c' (n + 1) where
  connecting hc := absurd hc hs.state
  settled _ := by
    right
    rw [(h.connecting hstate).2, hs.poller]
    exact ⟨⟨fd, hs.channel⟩, rfl⟩
  sockets := by
    have hheld := h.sockets
    rw [Owned.held_connecting hstate hfd] at hheld
    rw [held_of_ne hs.state, nil_append, hs.created]
    refine List.Perm.trans ?_ hheld
    rcases hs.sockets with ⟨hclosed, hhanded⟩ | ⟨-, hclosed, hhanded⟩
    · rw [hclosed, hhanded, append_assoc]
      exact perm_middle
    · rw [hclosed, hhanded, ← append_assoc]
      exact perm_append_singleton _ _

theorem settled_retry (c : Connector) (fd : ℕ) : Settled c fd ((c.retire fd).retry fd) :=
  have h := closes_retry (c.retire fd) fd
  ⟨h.poller, by rw [h.state]; decide, h.channel, h.pendingFunctors, h.created,
    .inl ⟨h.closed, h.handed⟩⟩

theorem handleError_of_connecting (hstate : c.state = .kConnecting)
    (hfd : c.channel = some ⟨fd, waiting c.poller⟩) :
    c.handleError = .ok ((c.retire fd).retry fd) := by
  rw [handleError, if_pos hstate, removeAndResetChannel_of_waiting hfd]
  rfl

theorem handleError_of_ne (hstate : c.state ≠ .kConnecting) : c.handleError = .ok c := if_neg hstate

theorem handleWrite_of_connecting (hstate : c.state = .kConnecting)
    (hfd : c.channel = some ⟨fd, waiting c.poller⟩) (soError : ℕ) (selfConnect : Bool) :
    ∃ c', c.handleWrite soError selfConnect = .ok c' ∧ Settled c fd c' := by
  rw [handleWrite, if_pos hstate, removeAndResetChannel_of_waiting hfd, ok_bind]
  dsimp only
  split_ifs
  · exact ⟨_, rfl, settled_retry c fd⟩
  · exact ⟨_, rfl, settled_retry c fd⟩
  · exact ⟨_, rfl, rfl, by simp, rfl, rfl, rfl, .inr ⟨rfl, rfl, rfl⟩⟩
  · exact ⟨_, rfl, rfl, by simp, rfl, rfl, rfl, .inl ⟨rfl, rfl⟩⟩

theorem handleWrite_eq_ok_of_ne (hstate : c.state ≠ .kConnecting) {soError : ℕ} {selfConnect : Bool}
    (h : c.handleWrite soError selfConnect = .ok c') : c.state = .kDisconnected ∧ c' = c := by
  rw [handleWrite, if_neg hstate] at h
  obtain ⟨hdisconnected, h⟩ := assert_bind_eq_ok.mp h
  exact ⟨hdisconnected, (Except.ok.inj h).symm⟩

theorem stopInLoop_of_connecting (hstate : c.state = .kConnecting)
    (hfd : c.channel = some ⟨fd, waiting c.poller⟩) :
    ∃ c', c.stopInLoop = .ok c' ∧ Settled c fd c' := by
  have hremove := removeAndResetChannel_of_waiting (c := { c with state := .kDisconnected }) hfd
  rw [stopInLoop, if_pos hstate, hremove]
  have hs := settled_retry { c with state := .kDisconnected } fd
  exact ⟨_, rfl, hs.poller, hs.state, hs.channel, hs.pendingFunctors, hs.created, hs.sockets⟩

theorem stopInLoop_of_ne (hstate : c.state ≠ .kConnecting) : c.stopInLoop = .ok c := if_neg hstate

theorem connected_stopInLoop (h : c.stopInLoop = .ok c') :
    c'.state = .kConnected ↔ c.state = .kConnected := by
  rw [stopInLoop] at h
  split_ifs at h with hstate
  · obtain ⟨⟨fd, t⟩, -, h⟩ := bind_eq_ok.mp h
    cases h
    simp [(closes_retry t fd).state, hstate]
  · cases h
    rfl

/-- What handling an event or `stopInLoop` comes to: nothing, or the socket that is held is settled.
-/
def SettlesOrKeeps (c c' : Connector) : Prop :=
  c' = c ∨ c.state = .kConnecting ∧
    ∃ fd, c.channel = some ⟨fd, waiting c.poller⟩ ∧ Settled c fd c'

theorem Owned.stopInLoop (h : Owned c n) : ∃ c', c.stopInLoop = .ok c' ∧ SettlesOrKeeps c c' := by
  by_cases hstate : c.state = .kConnecting
  · obtain ⟨⟨fd, hfd⟩, -⟩ := h.connecting hstate
    obtain ⟨c', hok, hs⟩ := stopInLoop_of_connecting hstate hfd
    exact ⟨c', hok, .inr ⟨hstate, fd, hfd, hs⟩⟩
  · exact ⟨c, stopInLoop_of_ne hstate, .inl rfl⟩

theorem Owned.stopInLoop_eq_ok (h : Owned c n) (hok : c.stopInLoop = .ok c') :
    SettlesOrKeeps c c' := by
  obtain ⟨t, ht, hsettles⟩ := h.stopInLoop
  rw [ht] at hok
  exact Except.ok.inj hok ▸ hsettles

theorem handleEvent_eq (c : Connector) (revents : EventMask) (soError : ℕ) (selfConnect : Bool) :
    c.handleEvent revents soError selfConnect =
      (if revents.has (EventMask.POLLERR ||| EventMask.POLLNVAL) then c.handleError else .ok c) >>=
        fun t ↦ if revents.has EventMask.POLLOUT then t.handleWrite soError selfConnect
          else .ok t := by
  rw [handleEvent, Channel.handleEventWithGuard]
  simp only [ite_self, pure, Except.pure, ok_bind]
  split_ifs <;> rfl

theorem Owned.handleError (h : Owned c n) :
    ∃ c', c.handleError = .ok c' ∧ SettlesOrKeeps c c' ∧ (c' = c ∨ c'.state = .kDisconnected) := by
  by_cases hstate : c.state = .kConnecting
  · obtain ⟨⟨fd, hfd⟩, -⟩ := h.connecting hstate
    exact ⟨_, handleError_of_connecting hstate hfd, .inr ⟨hstate, fd, hfd, settled_retry c fd⟩,
      .inr (closes_retry _ _).state⟩
  · exact ⟨c, handleError_of_ne hstate, .inl rfl, .inl rfl⟩

/-- A start does not leave the state `kConnected`. -/
theorem state_startInLoop (h : c.startInLoop errno = .ok c') :
    c.state = .kDisconnected ∧ c'.state ≠ .kConnected := by
  obtain ⟨hstate, ⟨-, rfl⟩ | ⟨-, hconnect⟩⟩ := startInLoop_eq_ok h
  · exact ⟨hstate, by simp [hstate]⟩
  · rcases connect_eq_ok hstate hconnect with ⟨-, -, rfl⟩ | ⟨-, hcloses⟩
    · exact ⟨hstate, by simp⟩
    · exact ⟨hstate, by simp [hcloses.state]⟩

theorem handleWrite_of_disconnected (hstate : c.state = .kDisconnected) (soError : ℕ)
    (selfConnect : Bool) : c.handleWrite soError selfConnect = .ok c := by
  rw [handleWrite, if_neg (by rw [hstate]; decide), assert_bind_of hstate]

theorem Owned.handleWrite (h : Owned c n) (hstate : c.state ≠ .kConnected) (soError : ℕ)
    (selfConnect : Bool) :
    ∃ c', c.handleWrite soError selfConnect = .ok c' ∧ SettlesOrKeeps c c' := by
  cases hs : c.state with
  | kDisconnected => exact ⟨c, handleWrite_of_disconnected hs soError selfConnect, .inl rfl⟩
  | kConnecting =>
    obtain ⟨⟨fd, hfd⟩, -⟩ := h.connecting hs
    obtain ⟨c', hok, hsettled⟩ := handleWrite_of_connecting hs hfd soError selfConnect
    exact ⟨c', hok, .inr ⟨hs, fd, hfd, hsettled⟩⟩
  | kConnected => exact absurd hs hstate

/-- The write callback after the error callback finds the state `kDisconnected` and does nothing. -/
theorem Owned.handleEvent (h : Owned c n) (hstate : c.state ≠ .kConnected) (revents : EventMask)
    (soError : ℕ) (selfConnect : Bool) :
    ∃ c', c.handleEvent revents soError selfConnect = .ok c' ∧ SettlesOrKeeps c c' := by
  have herror : ∃ t, (if revents.has (EventMask.POLLERR ||| EventMask.POLLNVAL) then c.handleError
      else .ok c) = .ok t ∧ SettlesOrKeeps c t ∧ (t = c ∨ t.state = .kDisconnected) := by
    split_ifs
    · exact h.handleError
    · exact ⟨c, rfl, .inl rfl, .inl rfl⟩
  obtain ⟨t, ht, hsettles, hkept⟩ := herror
  rw [handleEvent_eq, ht, ok_bind]
  split_ifs
  · rcases hkept with rfl | hdisconnected
    · exact h.handleWrite hstate soError selfConnect
    · exact ⟨t, handleWrite_of_disconnected hdisconnected soError selfConnect, hsettles⟩
  · exact ⟨t, rfl, hsettles⟩

theorem Owned.handleEvent_eq_ok (h : Owned c n) {revents : EventMask} {soError : ℕ}
    {selfConnect : Bool}
    (hok : c.handleEvent revents soError selfConnect = .ok c') : SettlesOrKeeps c c' := by
  by_cases hstate : c.state = .kConnected
  · have hne : c.state ≠ .kConnecting := by rw [hstate]; decide
    rw [handleEvent_eq, handleError_of_ne hne, ite_self, ok_bind] at hok
    split_ifs at hok
    · exact .inl (handleWrite_eq_ok_of_ne hne hok).2
    · exact .inl (Except.ok.inj hok).symm
  · obtain ⟨t, ht, hsettles⟩ := h.handleEvent hstate revents soError selfConnect
    rw [ht] at hok
    exact Except.ok.inj hok ▸ hsettles

/-- When an event takes the connector to the state `kConnected`. -/
theorem connected_handleEvent (hstate : c.state = .kConnecting)
    (hfd : c.channel = some ⟨fd, waiting c.poller⟩)
    {revents : EventMask} {soError : ℕ} {selfConnect : Bool}
    (hok : c.handleEvent revents soError selfConnect = .ok c') : c'.state = .kConnected ↔
      revents.has (EventMask.POLLERR ||| EventMask.POLLNVAL) = false ∧
      revents.has EventMask.POLLOUT = true ∧ soError = 0 ∧ selfConnect = false := by
  have hretry : ((c.retire fd).retry fd).state = .kDisconnected := (closes_retry _ fd).state
  rw [handleEvent_eq] at hok
  split_ifs at hok with herror hout hout
  · rw [handleError_of_connecting hstate hfd, ok_bind,
      handleWrite_of_disconnected hretry] at hok
    cases hok
    simp [hretry, herror]
  · rw [handleError_of_connecting hstate hfd, ok_bind] at hok
    cases hok
    simp [hretry, herror]
  · rw [ok_bind, handleWrite, if_pos hstate, removeAndResetChannel_of_waiting hfd, ok_bind] at hok
    dsimp only at hok
    split_ifs at hok with hso hself hflag <;> cases hok <;> simp_all
  · cases hok
    simp [hstate, hout]

/-- The number of functors that will reset the channel, when `functors` is the rest of the current
batch. -/
def resets (c : Connector) (functors : List LoopFunctor) : ℕ :=
  (functors ++ c.pendingFunctors).count .resetChannel

theorem resets_congr {functors : List LoopFunctor} (h : c'.pendingFunctors = c.pendingFunctors) :
    c'.resets functors = c.resets functors := by rw [resets, resets, h]

theorem resets_queueInLoop (c : Connector) (functors : List LoopFunctor) {f : LoopFunctor}
    (hf : f ≠ .resetChannel) : (c.queueInLoop f).resets functors = c.resets functors := by
  rw [resets, resets, queueInLoop, ← append_assoc, count_append, count_singleton,
    if_neg (by simpa using hf), Nat.add_zero]

theorem Owned.settlesOrKeeps {functors : List LoopFunctor} (h : Owned c (c.resets functors))
    (hs : SettlesOrKeeps c c') : Owned c' (c'.resets functors) := by
  rcases hs with rfl | ⟨hstate, fd, hfd, hsettled⟩
  · exact h
  · have hresets : c'.resets functors = c.resets functors + 1 := by
      rw [resets, resets, hsettled.pendingFunctors, ← append_assoc, count_append,
        count_singleton_self]
    rw [hresets]
    exact h.settle hstate hfd hsettled

theorem pendingFunctors_connect (hstate : c.state = .kDisconnected) (h : c.connect errno = .ok c') :
    c'.pendingFunctors = c.pendingFunctors ∧ c'.handed = c.handed := by
  rcases connect_eq_ok hstate h with ⟨-, -, rfl⟩ | ⟨-, hcloses⟩
  · exact ⟨rfl, rfl⟩
  · exact ⟨hcloses.pendingFunctors, hcloses.handed⟩

theorem pendingFunctors_startInLoop (h : c.startInLoop errno = .ok c') :
    c'.pendingFunctors = c.pendingFunctors ∧ c'.handed = c.handed := by
  obtain ⟨hstate, ⟨-, rfl⟩ | ⟨-, hconnect⟩⟩ := startInLoop_eq_ok h
  · exact ⟨rfl, rfl⟩
  · exact pendingFunctors_connect hstate hconnect

/-- The functor that resets the channel finds it out of the loop. -/
theorem Owned.resetChannel (h : Owned c (n + 1)) :
    c.state ≠ .kConnecting ∧ c.resetChannel = .ok { c with channel := none } ∧
      Owned { c with channel := none } n := by
  have hstate : c.state ≠ .kConnecting :=
    fun hstate ↦ absurd (h.connecting hstate).2 (Nat.succ_ne_zero n)
  refine ⟨hstate, ?_⟩
  rcases h.settled hstate with ⟨-, hn⟩ | ⟨⟨fd, hfd⟩, hn⟩
  · exact absurd hn (Nat.succ_ne_zero n)
  · obtain rfl : n = 0 := Nat.succ.inj hn
    refine ⟨?_, fun hc ↦ absurd hc hstate, fun _ ↦ .inl ⟨rfl, rfl⟩, ?_⟩
    · simp only [Connector.resetChannel, hfd]
      rfl
    · have hheld : held { c with channel := none } = c.held := by
        rw [held_of_ne hstate]
        exact held_of_ne hstate
      rw [hheld]
      exact h.sockets

/-! ## Sockets one by one -/

/-- The socket is held by the channel, in the state `kConnecting`, and the poller watches whether it
can be written. -/
def Holds (c : Connector) (fd : ℕ) : Prop :=
  c.state = .kConnecting ∧ ∃ channel : Channel, c.channel = some ⟨fd, channel⟩ ∧
    channel.registration.watched = some Channel.kWriteEvent

/-- Every socket created is held, or was closed once, or was handed over once, and only one of
these. -/
def SocketsOwned (c : Connector) : Prop :=
  ∀ fd < c.created,
    (c.Holds fd ∧ c.closed.count fd = 0 ∧ c.handed.count fd = 0) ∨
    (¬c.Holds fd ∧ c.closed.count fd = 1 ∧ c.handed.count fd = 0) ∨
    (¬c.Holds fd ∧ c.closed.count fd = 0 ∧ c.handed.count fd = 1)

theorem Owned.holds_iff (h : Owned c n) (fd : ℕ) : c.Holds fd ↔ fd ∈ c.held := by
  constructor
  · rintro ⟨hstate, channel, hchannel, -⟩
    rw [held, if_pos hstate, hchannel]
    exact mem_singleton_self fd
  · intro hmem
    by_cases hstate : c.state = .kConnecting
    · obtain ⟨⟨fd', hfd'⟩, -⟩ := h.connecting hstate
      rw [Owned.held_connecting hstate hfd', mem_singleton] at hmem
      exact ⟨hstate, _, hmem ▸ hfd', rfl⟩
    · rw [held_of_ne hstate] at hmem
      cases hmem

/-- Every socket created occurs once among those held, closed and handed over. -/
theorem Owned.count_sockets (h : Owned c n) (hfd : fd < c.created) :
    c.held.count fd + (c.closed.count fd + c.handed.count fd) = 1 := by
  rw [← count_append, ← count_append, h.sockets.count_eq]
  exact count_eq_one_of_mem nodup_range (mem_range.mpr hfd)

theorem Owned.socketsOwned (h : Owned c n) : c.SocketsOwned := by
  intro fd hfd
  have hcount := h.count_sockets hfd
  by_cases hholds : c.Holds fd
  · have hpos := count_pos_iff.mpr ((h.holds_iff fd).mp hholds)
    exact .inl ⟨hholds, by omega, by omega⟩
  · have hzero := count_eq_zero.mpr (mt (h.holds_iff fd).mpr hholds)
    rcases Nat.eq_zero_or_pos (c.closed.count fd) with hclosed | hclosed
    · exact .inr (.inr ⟨hholds, hclosed, by omega⟩)
    · exact .inr (.inl ⟨hholds, by omega, by omega⟩)

/-- The socket that is held has been neither closed nor handed over. -/
theorem Owned.held_fresh (h : Owned c n) (hstate : c.state = .kConnecting)
    (hfd : c.channel = some ⟨fd, waiting c.poller⟩) :
    fd < c.created ∧ c.closed.count fd = 0 ∧ c.handed.count fd = 0 := by
  have hheld := Owned.held_connecting hstate hfd
  have hlt : fd < c.created := by
    refine mem_range.mp (h.sockets.mem_iff.mp ?_)
    rw [hheld]
    exact mem_cons_self
  have hcount := h.count_sockets hlt
  rw [hheld, count_singleton_self] at hcount
  exact ⟨hlt, by omega, by omega⟩

/-- `restart` in the state `kConnecting` either trips an assertion or loses the socket. -/
theorem Owned.not_socketsOwned_restart (h : Owned c n) (hstate : c.state = .kConnecting)
    (hok : c.restart errno = .ok c') : ¬c'.SocketsOwned := by
  obtain ⟨⟨fd, hfd⟩, -⟩ := h.connecting hstate
  obtain ⟨hlt, hclosed₀, hhanded₀⟩ := h.held_fresh hstate hfd
  obtain ⟨-, ⟨hflag, -⟩ | ⟨-, hconnect⟩⟩ := startInLoop_eq_ok hok
  · cases hflag
  rcases connect_eq_ok rfl hconnect with ⟨-, hnone, -⟩ | ⟨-, hcloses⟩
  · exact absurd (hfd.symm.trans hnone) (Option.some_ne_none _)
  · intro howned
    have hclosed : c'.closed.count fd = c.closed.count fd := by
      rw [hcloses.closed, count_append, count_singleton, if_neg (by simpa using hlt.ne'),
        Nat.add_zero]
    have hhanded : c'.handed.count fd = c.handed.count fd := by rw [hcloses.handed]
    rcases howned fd (by rw [hcloses.created]; exact Nat.lt_succ_of_lt hlt) with h | h | h
    · have hconnecting := h.1.1
      rw [hcloses.state] at hconnecting
      cases hconnecting
    · omega
    · omega

end Connector

/-! ## The client -/

namespace TcpClient

variable {T : Type} {s s' : TcpClient T} {errno : Errno}

/-- The action calls `Connector::restart`, if it is possible. -/
def restarts (s : TcpClient T) : Action T → Bool
  | .restart _ => true
  | .closeEvent _ => s.retry && s.connectFlag
  | .call _ =>
    match s.functors with
    | .forceCloseInLoop fd :: _ => s.connection == some fd && (s.retry && s.connectFlag)
    | _ => false
  | _ => false

/-- The connector is not restarted while an attempt is under way. -/
def KeepsAttempt (s : TcpClient T) (a : Action T) : Prop :=
  s.restarts a → s.connector.state ≠ .kConnecting

instance (s : TcpClient T) (a : Action T) : Decidable (s.KeepsAttempt a) :=
  inferInstanceAs (Decidable (_ → _))

/-- The invariant of the connector, with the queue of the loop. While events are handled, no batch
is left. -/
structure Owned (s : TcpClient T) : Prop where
  connector : s.connector.Owned (s.connector.resets s.functors)
  functors : s.handling → s.functors = []

theorem owned_new (poller : PollerKind) : Owned (new poller : TcpClient T) :=
  ⟨Connector.owned_new poller, fun _ ↦ rfl⟩

/-- The connector is replaced, and what else matters stays. -/
structure Replaces (s s' : TcpClient T) (c : Connector) : Prop where
  connector : s'.connector = c
  functors : s'.functors = s.functors
  handling : s'.handling = s.handling

theorem replaces_newConnection (s : TcpClient T) (c : Connector) :
    Replaces s (s.newConnection c) c := by
  unfold newConnection
  split <;> exact ⟨rfl, rfl, rfl⟩

section Replaces

variable (h : Owned s) {c : Connector}
include h

theorem Owned.replace (hs : Replaces s s' c) (hc : c.Owned (c.resets s.functors)) : Owned s' where
  connector := by
    rw [hs.connector, hs.functors]
    exact hc
  functors := by
    rw [hs.handling, hs.functors]
    exact h.functors

theorem Owned.update (hs : Replaces s s' c) (hc : c.Owned (s.connector.resets s.functors))
    (hpending : c.pendingFunctors = s.connector.pendingFunctors) : Owned s' := by
  refine h.replace hs ?_
  rwa [Connector.resets_congr hpending]

theorem Owned.startInLoop {c' : Connector} (hs : Replaces s s' c')
    (hc : c.Owned (s.connector.resets s.functors))
    (hpending : c.pendingFunctors = s.connector.pendingFunctors)
    (hok : c.startInLoop errno = .ok c') : Owned s' :=
  h.update hs (hc.startInLoop hok)
    ((Connector.pendingFunctors_startInLoop hok).1.trans hpending)

theorem Owned.queueInLoop {f : LoopFunctor} (hs : Replaces s s' (c.queueInLoop f))
    (hc : c.Owned (s.connector.resets s.functors)) (hf : f ≠ .resetChannel)
    (hpending : c.pendingFunctors = s.connector.pendingFunctors) : Owned s' := by
  refine h.replace hs ?_
  rw [Connector.resets_queueInLoop c _ hf, Connector.resets_congr hpending]
  exact hc.congr rfl Iff.rfl rfl rfl rfl rfl

theorem Owned.settlesOrKeeps (hs : Replaces s s' c)
    (hc : Connector.SettlesOrKeeps s.connector c) : Owned s' :=
  h.replace hs (h.connector.settlesOrKeeps hc)

end Replaces

theorem Owned.removeConnection (h : Owned s)
    (hstate : s.retry && s.connectFlag → s.connector.state ≠ .kConnecting)
    (hok : s.removeConnection errno = .ok s') : Owned s' := by
  unfold TcpClient.removeConnection at hok
  split_ifs at hok with hretry
  · obtain ⟨c, hrestart, hok⟩ := bind_eq_ok.mp hok
    cases hok
    have hpending := (Connector.pendingFunctors_startInLoop hrestart).1
    exact h.update ⟨rfl, rfl, rfl⟩ (h.connector.restart (hstate hretry) hrestart) hpending
  · cases hok
    exact ⟨h.connector, h.functors⟩

theorem call_eq_ok (hok : s.call errno = .ok s') :
    ∃ f functors, s.functors = f :: functors ∧
      { s with functors := functors }.runFunctor errno f = .ok s' := by
  cases hf : s.functors with
  | nil =>
    simp only [TcpClient.call, hf] at hok
    cases hok
  | cons f functors =>
    simp only [TcpClient.call, hf] at hok
    exact ⟨f, functors, rfl, hok⟩

theorem resets_cons (c : Connector) (f : LoopFunctor) (functors : List LoopFunctor) :
    c.resets (f :: functors) = c.resets functors + if f = .resetChannel then 1 else 0 := by
  rw [Connector.resets, cons_append, count_cons]
  simp [Connector.resets]

theorem Owned.next (h : Owned s) (hhandling : s.handling = false) {f : LoopFunctor}
    {functors : List LoopFunctor} (hf : s.functors = f :: functors) (hne : f ≠ .resetChannel) :
    Owned { s with functors := functors } := by
  have hconnector := h.connector
  rw [hf, resets_cons, if_neg hne, Nat.add_zero] at hconnector
  refine ⟨hconnector, fun hh ↦ ?_⟩
  rw [hhandling] at hh
  cases hh

theorem Owned.call (h : Owned s) (hhandling : s.handling = false)
    (hkeeps : s.KeepsAttempt (.call errno)) (hok : s.call errno = .ok s') : Owned s' := by
  obtain ⟨f, functors, hf, hok⟩ := call_eq_ok hok
  cases f with
  | startInLoop =>
    have ht := h.next hhandling hf (by decide)
    obtain ⟨c, hc, hok⟩ := bind_eq_ok.mp hok
    cases hok
    exact ht.startInLoop ⟨rfl, rfl, rfl⟩ ht.connector rfl hc
  | stopInLoop =>
    have ht := h.next hhandling hf (by decide)
    obtain ⟨c, hc, hok⟩ := bind_eq_ok.mp hok
    cases hok
    exact ht.settlesOrKeeps ⟨rfl, rfl, rfl⟩ (ht.connector.stopInLoop_eq_ok hc)
  | resetChannel =>
    obtain ⟨c, hc, hok⟩ := bind_eq_ok.mp hok
    cases hok
    have hconnector := h.connector
    rw [hf, resets_cons, if_pos rfl] at hconnector
    obtain ⟨-, hreset, hconnector'⟩ := hconnector.resetChannel
    rw [hreset] at hc
    cases hc
    refine ⟨hconnector', fun hh ↦ ?_⟩
    rw [hhandling] at hh
    cases hh
  | forceCloseInLoop fd =>
    have ht := h.next hhandling hf (by simp)
    simp only [runFunctor] at hok
    split_ifs at hok with hconnection
    · refine ht.removeConnection (fun hretry ↦ hkeeps ?_) hok
      rw [restarts, hf]
      simp only [hconnection, beq_self_eq_true, Bool.true_and]
      exact hretry
    · cases hok
      exact ht

variable [DecidableEq T] {a : Action T}

theorem Owned.step (h : Owned s) (hkeeps : s.KeepsAttempt a) (hok : s.step a = .ok s') :
    Owned s' := by
  cases a with
  | connect errno =>
    obtain ⟨-, hok⟩ := attempt_eq_ok.mp hok
    obtain ⟨c, hc, hok⟩ := bind_eq_ok.mp hok
    cases hok
    exact h.startInLoop ⟨rfl, rfl, rfl⟩ (h.connector.setConnectFlag true) rfl hc
  | stop =>
    obtain ⟨-, rfl⟩ := guarded_eq_ok.mp hok
    exact h.queueInLoop (f := .stopInLoop) ⟨rfl, rfl, rfl⟩ (h.connector.setConnectFlag false)
      (by decide) rfl
  | disconnect | enableRetry | enter t call =>
    obtain ⟨-, rfl⟩ := guarded_eq_ok.mp hok
    exact ⟨h.connector, h.functors⟩
  | advance t =>
    simp only [TcpClient.step] at hok
    split at hok
    · cases hok
    rename_i step steps hsteps
    cases hok
    cases step with
    | setClientConnect b => exact ⟨h.connector, h.functors⟩
    | setConnectorConnect b =>
      exact h.update ⟨rfl, rfl, rfl⟩ (h.connector.setConnectFlag b) rfl
    | queueStartInLoop =>
      exact h.queueInLoop (f := .startInLoop) ⟨rfl, rfl, rfl⟩ h.connector (by decide) rfl
    | queueStopInLoop =>
      exact h.queueInLoop (f := .stopInLoop) ⟨rfl, rfl, rfl⟩ h.connector (by decide) rfl
  | poll active =>
    obtain ⟨⟨-, hfunctors, -⟩, rfl⟩ := guarded_eq_ok.mp hok
    exact ⟨h.connector, fun _ ↦ hfunctors⟩
  | handleEvent revents soError selfConnect =>
    obtain ⟨-, hok⟩ := attempt_eq_ok.mp hok
    obtain ⟨c, hc, hok⟩ := bind_eq_ok.mp hok
    cases hok
    have hs := s.replaces_newConnection c
    exact h.settlesOrKeeps ⟨hs.1, hs.2, hs.3⟩ (h.connector.handleEvent_eq_ok hc)
  | timer i errno =>
    obtain ⟨-, hok⟩ := attempt_eq_ok.mp hok
    obtain ⟨c, hc, hok⟩ := bind_eq_ok.mp hok
    cases hok
    exact h.startInLoop ⟨rfl, rfl, rfl⟩ (h.connector.setTimers (s.connector.timers.eraseIdx i)) rfl
      hc
  | closeEvent errno =>
    obtain ⟨-, hok⟩ := attempt_eq_ok.mp hok
    exact h.removeConnection hkeeps hok
  | forceClose fd =>
    obtain ⟨-, rfl⟩ := guarded_eq_ok.mp hok
    exact h.queueInLoop (f := .forceCloseInLoop fd) ⟨rfl, rfl, rfl⟩ h.connector (by simp) rfl
  | swap =>
    obtain ⟨⟨hhandling, -⟩, rfl⟩ := guarded_eq_ok.mp hok
    refine ⟨?_, fun hh ↦ by cases hh⟩
    -- the batch was empty, and what was pending becomes the batch
    have hconnector := h.connector
    rw [h.functors hhandling] at hconnector
    refine Connector.Owned.congr (c := s.connector) ?_ rfl Iff.rfl rfl rfl rfl rfl
    simpa [Connector.resets] using hconnector
  | call errno =>
    obtain ⟨⟨hhandling, -⟩, hok⟩ := attempt_eq_ok.mp hok
    exact h.call hhandling hkeeps hok
  | restart errno =>
    obtain ⟨-, hok⟩ := attempt_eq_ok.mp hok
    obtain ⟨c, hc, hok⟩ := bind_eq_ok.mp hok
    cases hok
    have hpending := (Connector.pendingFunctors_startInLoop hc).1
    exact h.update ⟨rfl, rfl, rfl⟩ (h.connector.restart (hkeeps rfl) hc) hpending

/-- An action that restarts the connector does it. -/
theorem restart_of_restarts (hrestarts : s.restarts a) (hok : s.step a = .ok s') :
    ∃ errno, s.connector.restart errno = .ok s'.connector := by
  have hremove {t : TcpClient T} {errno : Errno} (hretry : t.retry && t.connectFlag)
      (hok : t.removeConnection errno = .ok s') :
        ∃ errno, t.connector.restart errno = .ok s'.connector := by
    rw [TcpClient.removeConnection, if_pos hretry] at hok
    obtain ⟨c, hc, hok⟩ := bind_eq_ok.mp hok
    cases hok
    exact ⟨errno, hc⟩
  cases a with
  | restart errno =>
    obtain ⟨-, hok⟩ := attempt_eq_ok.mp hok
    obtain ⟨c, hc, hok⟩ := bind_eq_ok.mp hok
    cases hok
    exact ⟨errno, hc⟩
  | closeEvent errno =>
    obtain ⟨-, hok⟩ := attempt_eq_ok.mp hok
    exact hremove hrestarts hok
  | call errno =>
    obtain ⟨-, hok⟩ := attempt_eq_ok.mp hok
    simp only [restarts] at hrestarts
    split at hrestarts
    · rename_i fd functors hf
      rw [Bool.and_eq_true, beq_iff_eq] at hrestarts
      simp only [TcpClient.call, hf, runFunctor, if_pos hrestarts.1] at hok
      exact hremove (t := { s with functors := functors }) hrestarts.2 hok
    · cases hrestarts
  | _ => cases hrestarts

/-- **Who owns a socket.** In a run in which no assertion fails, every socket created is at every
point held by the channel in the state `kConnecting`, closed once or handed over once, exactly if
`restart` is never called in the state `kConnecting`. -/
theorem sockets_owned_iff {poller : PollerKind} {actions : List (Action T)} {s : TcpClient T}
    (h : runAll step (new poller) actions = .ok s) :
    (Along step (fun t _ ↦ t.connector.SocketsOwned) (new poller) actions ∧
      s.connector.SocketsOwned) ↔
      Along step KeepsAttempt (new poller) actions := by
  refine along_iff_of_runAll (I := Owned) (Q := fun t ↦ t.connector.SocketsOwned)
    (fun t ht ↦ ht.connector.socketsOwned) (fun t a t' ht hkeeps hok ↦ ht.step hkeeps hok)
    (fun t a t' ht hnot hok ↦ ?_) (owned_new poller) h
  rw [KeepsAttempt, Classical.not_imp, not_not] at hnot
  obtain ⟨errno, hrestart⟩ := restart_of_restarts hnot.1 hok
  exact ht.connector.not_socketsOwned_restart hnot.2 hrestart

/-- An attempt that succeeds. -/
def attemptOnce : List (Action Unit) :=
  [.connect .EINPROGRESS, .swap, .poll true, .handleEvent EventMask.POLLOUT 0 false, .swap,
    .call .success]

theorem sockets_owned_attemptOnce : ∃ s : TcpClient Unit,
    runAll step (new .epoll) attemptOnce = .ok s ∧ s.connector.handed = [0] ∧
      (Along step (fun t _ ↦ t.connector.SocketsOwned) (new .epoll) attemptOnce ∧
        s.connector.SocketsOwned) :=
  ⟨_, rfl, rfl, (@sockets_owned_iff Unit _ .epoll attemptOnce _ rfl).mpr (by decide)⟩

/-- The second attempt is refused. The first socket is still watched, and will never be closed. -/
theorem restart_loses_socket : ∃ s : TcpClient Unit,
    runAll step (new .epoll) [.connect .EINPROGRESS, .restart .ECONNREFUSED] = .ok s ∧
      s.connector.state = .kDisconnected ∧ s.isWatched ∧ s.connector.closed = [1] ∧
      s.connector.handed = [] ∧ ¬s.connector.SocketsOwned := by
  refine ⟨_, rfl, rfl, rfl, rfl, rfl, fun howned ↦ ?_⟩
  rcases howned 0 Nat.two_pos with h | h | h
  · cases h.1.1
  · exact absurd h.2.1 (by decide)
  · exact absurd h.2.2 (by decide)

end TcpClient

end Fishnet
