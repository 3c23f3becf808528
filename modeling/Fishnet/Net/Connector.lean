import Fishnet.Net.Channel

/-!
# The connector

A `Connector` opens a socket, calls `connect(2)` on it and waits with a `Channel` until the socket
is writable. Then the socket is handed to a callback, or closed and tried again after a delay.
`start`, `stop` and `restart` come from outside, `handleWrite` and `handleError` from the loop.

Three variables say where a connector is: the flag `connect_`, the state, and the pointer to the
channel. They do not change together. In particular the channel is taken out of the loop at once but
destroyed by a functor queued for later, since it may be the one whose event is being handled.

## The world around

What the operating system answers is an argument: the error of `connect(2)`, the value of
`SO_ERROR`, whether the socket is connected to itself. A socket is known by its number in the order
of creation, so that two sockets differ even when the kernel reuses a descriptor. Of the loop the
connector holds the functors it has queued and the delays of the timers it has set. The lists
`closed` and `handed` are history.
-/

namespace Fishnet

/-! ## What the outside answers -/

/-- The outcomes of `connect(2)`. -/
inductive Errno where
  | success
  | EINPROGRESS
  | EINTR
  | EISCONN
  | EAGAIN
  | EADDRINUSE
  | ECONNREFUSED
  | ENETUNREACH
  | EACCES
  | EPERM
  | EAFNOSUPPORT
  | EALREADY
  | EBADF
  | EFAULT
  | ENOTSOCK
  | other (n : ℕ)
  deriving DecidableEq, Repr

/-- The connection is being made. -/
def Errno.isConnecting : Errno → Bool
  | .success | .EINPROGRESS | .EINTR | .EISCONN => true
  | _ => false

/-! ## The state -/

/-- `Connector::States`. -/
inductive ConnectorState where
  | kDisconnected
  | kConnecting
  | kConnected
  deriving DecidableEq, Repr

/-- A channel with its socket. -/
structure SocketChannel where
  fd : ℕ
  channel : Channel
  deriving DecidableEq, Repr

/-- What is queued in the loop: functors of the connector, and the `forceCloseInLoop` of a
connection. -/
inductive LoopFunctor where
  | startInLoop
  | stopInLoop
  | resetChannel
  | forceCloseInLoop (fd : ℕ)
  deriving DecidableEq, Repr

structure Connector where
  /-- The back end of the poller of `loop_`. -/
  poller : PollerKind
  /-- `connect_`. -/
  connectFlag : Bool
  /-- `state_`. -/
  state : ConnectorState
  /-- `channel_`. -/
  channel : Option SocketChannel
  /-- `retryDelaysMs_`. -/
  retryDelaysMs : ℕ
  /-- `pendingFunctors_` of the loop. -/
  pendingFunctors : List LoopFunctor
  /-- The delays of the timers that will call `startInLoop`. -/
  timers : List ℕ
  /-- The number of sockets created. -/
  created : ℕ
  closed : List ℕ
  /-- The sockets given to `newConnectionCallback_`. -/
  handed : List ℕ
  deriving DecidableEq, Repr

namespace Connector

def kMaxRetryDelayMs : ℕ := 30 * 1000

def kInitRetryDelayMs : ℕ := 500

/-- A connector as constructed. -/
def new (poller : PollerKind) : Connector where
  poller := poller
  connectFlag := false
  state := .kDisconnected
  channel := none
  retryDelaysMs := kInitRetryDelayMs
  pendingFunctors := []
  timers := []
  created := 0
  closed := []
  handed := []

/-! ## The functions -/

variable (s : Connector)

/-- `loop_->queueInLoop`. -/
def queueInLoop (f : LoopFunctor) : Connector :=
  { s with pendingFunctors := s.pendingFunctors ++ [f] }

/-- `sockets::close`. -/
def close (fd : ℕ) : Connector := { s with closed := s.closed ++ [fd] }

def retry (fd : ℕ) : Connector :=
  if s.connectFlag then
    { s.close fd with
      state := .kDisconnected
      timers := s.timers ++ [s.retryDelaysMs]
      retryDelaysMs := min (s.retryDelaysMs * 2) kMaxRetryDelayMs }
  else { s.close fd with state := .kDisconnected }

def connecting (fd : ℕ) : Checked Connector := do
  assert (s.channel = none)
  let channel ← (Channel.new s.poller).enableWriting
  .ok { s with state := .kConnecting, channel := some ⟨fd, channel⟩ }

/-- The new socket gets the next number. -/
def connect (errno : Errno) : Checked Connector :=
  let t := { s with created := s.created + 1 }
  match errno with
  | .success | .EINPROGRESS | .EINTR | .EISCONN => t.connecting s.created
  | .EAGAIN | .EADDRINUSE | .ECONNREFUSED | .ENETUNREACH => .ok (t.retry s.created)
  | .EACCES | .EPERM | .EAFNOSUPPORT | .EALREADY | .EBADF | .EFAULT | .ENOTSOCK =>
    .ok (t.close s.created)
  | .other _ => .ok (t.close s.created)

def startInLoop (errno : Errno) : Checked Connector := do
  assert (s.state = .kDisconnected)
  if s.connectFlag then s.connect errno else .ok s

/-- `start`, called in the loop thread. -/
def start (errno : Errno) : Checked Connector :=
  { s with connectFlag := true }.startInLoop errno

def restart (errno : Errno) : Checked Connector :=
  { s with
    state := .kDisconnected, retryDelaysMs := kInitRetryDelayMs,
    connectFlag := true }.startInLoop errno

def stop : Connector := { s with connectFlag := false }.queueInLoop .stopInLoop

def removeAndResetChannel : Checked (ℕ × Connector) :=
  match s.channel with
  | none => .error .badAccess
  | some c => do
    let channel ← c.channel.disableAll
    let channel ← channel.remove
    .ok (c.fd, { s with channel := some ⟨c.fd, channel⟩ }.queueInLoop .resetChannel)

def stopInLoop : Checked Connector :=
  if s.state = .kConnecting then do
    let (fd, t) ← { s with state := .kDisconnected }.removeAndResetChannel
    .ok (t.retry fd)
  else .ok s

/-- `channel_.reset()`, with the assertions of `~Channel`. -/
def resetChannel : Checked Connector :=
  match s.channel with
  | none => .ok s
  | some c => do
    assert (c.channel.addedToLoop = false)
    assert (c.channel.registration.inChannels = false)
    .ok { s with channel := none }

/-- `newConnectionCallback_` is the last thing `handleWrite` does. -/
def handleWrite (soError : ℕ) (selfConnect : Bool) : Checked Connector :=
  if s.state = .kConnecting then do
    let (fd, t) ← s.removeAndResetChannel
    if soError ≠ 0 then .ok (t.retry fd)
    else if selfConnect then .ok (t.retry fd)
    else if t.connectFlag then .ok { t with state := .kConnected, handed := t.handed ++ [fd] }
    else .ok { t.close fd with state := .kConnected }
  else do
    assert (s.state = .kDisconnected)
    .ok s

/-- The value of `SO_ERROR` is only logged. -/
def handleError : Checked Connector :=
  if s.state = .kConnecting then do
    let (fd, t) ← s.removeAndResetChannel
    .ok (t.retry fd)
  else .ok s

/-- An event of the channel. Only the error and the write callback are set. -/
def handleEvent (revents : EventMask) (soError : ℕ) (selfConnect : Bool) : Checked Connector :=
  Channel.handleEventWithGuard revents pure handleError pure
    (fun t ↦ t.handleWrite soError selfConnect) s

end Connector

end Fishnet
