import Fishnet.Library.Run
import Fishnet.Net.Connector

/-!
# The client in its loop

`TcpClient` drives a connector. `connect` starts it and `stop` stops it, in any thread. The socket
the connector hands over becomes the connection of the client. When the connection goes away and the
client is to retry, the connector is restarted.

An action is a step of the loop or of another thread. A thread outside the loop executes a call in
small steps: two flags, then the push to the queue of the loop. In the loop thread a call runs
through at once.

## The loop

An iteration handles the channels that `poll` has reported, among them perhaps the one of the
connector, and then runs the functors that were in the queue. Timers fire, and a connection sees
that it is closed, while events are handled. A connection established in this iteration has its
first event in a later one.
-/

namespace Fishnet

/-- A step of a call made by another thread. -/
inductive CallStep where
  | setClientConnect (b : Bool)
  | setConnectorConnect (b : Bool)
  | queueStartInLoop
  | queueStopInLoop
  deriving DecidableEq, Repr

/-- The calls of `TcpClient`. -/
inductive ClientCall where
  | connect
  | stop
  | disconnect
  deriving DecidableEq, Repr

/-- What a call does outside the loop thread. The `shutdown` of `disconnect` does not concern the
connector. -/
def ClientCall.steps : ClientCall → List CallStep
  | .connect => [.setClientConnect true, .setConnectorConnect true, .queueStartInLoop]
  | .stop => [.setClientConnect false, .setConnectorConnect false, .queueStopInLoop]
  | .disconnect => [.setClientConnect false]

structure TcpClient (T : Type) where
  connector : Connector
  /-- `retry_`. -/
  retry : Bool
  /-- `connect_`. -/
  connectFlag : Bool
  /-- `connection_`: its socket. -/
  connection : Option ℕ
  /-- The connection was established in this iteration. -/
  established : Bool
  /-- Events are being handled; otherwise functors are being called. -/
  handling : Bool
  /-- The channel of the connector is among the active channels not handled yet. -/
  active : Bool
  /-- The rest of the current batch of functors. -/
  functors : List LoopFunctor
  /-- The rest of the call that a thread is in. -/
  caller : T → List CallStep

namespace TcpClient

variable {T : Type} [DecidableEq T]

/-- A client as constructed. -/
def new (poller : PollerKind) : TcpClient T where
  connector := .new poller
  retry := false
  connectFlag := true
  connection := none
  established := false
  handling := true
  active := false
  functors := []
  caller _ := []

variable (s : TcpClient T)

/-! ## The functions -/

/-- `connect`, called in the loop thread. -/
def connect (errno : Errno) : Checked (TcpClient T) := do
  let c ← s.connector.start errno
  .ok { s with connectFlag := true, connector := c }

def stop : TcpClient T := { s with connectFlag := false, connector := s.connector.stop }

def disconnect : TcpClient T := { s with connectFlag := false }

/-- `newConnection`, if `c` has handed over one more socket. -/
def newConnection (c : Connector) : TcpClient T :=
  match c.handed.drop s.connector.handed.length with
  | [] => { s with connector := c }
  | fd :: _ => { s with connector := c, connection := some fd, established := true }

def removeConnection (errno : Errno) : Checked (TcpClient T) :=
  if s.retry && s.connectFlag then do
    let c ← s.connector.restart errno
    .ok { s with connection := none, connector := c }
  else .ok { s with connection := none }

/-- A functor of the queue. `forceCloseInLoop` does nothing to a connection that is closed already.
-/
def runFunctor (errno : Errno) : LoopFunctor → Checked (TcpClient T)
  | .startInLoop => do
    let c ← s.connector.startInLoop errno
    .ok { s with connector := c }
  | .stopInLoop => do
    let c ← s.connector.stopInLoop
    .ok { s with connector := c }
  | .resetChannel => do
    let c ← s.connector.resetChannel
    .ok { s with connector := c }
  | .forceCloseInLoop fd =>
    if s.connection = some fd then s.removeConnection errno else .ok s

/-- A step of a call in another thread. -/
def runCallStep : CallStep → TcpClient T
  | .setClientConnect b => { s with connectFlag := b }
  | .setConnectorConnect b => { s with connector := { s.connector with connectFlag := b } }
  | .queueStartInLoop => { s with connector := s.connector.queueInLoop .startInLoop }
  | .queueStopInLoop => { s with connector := s.connector.queueInLoop .stopInLoop }

/-- The poller watches the channel of the connector. -/
def isWatched : Bool :=
  match s.connector.channel with
  | none => false
  | some c => c.channel.registration.watched.isSome

/-! ## The actions -/

/-- What a thread can do next. An `errno` is the answer of `connect(2)` if the action calls it. -/
inductive Action (T : Type) where
  /-- The calls of user code in the loop thread. -/
  | connect (errno : Errno)
  | stop
  | disconnect
  | enableRetry
  /-- Another thread calls, and takes a step of its call. -/
  | enter (t : T) (call : ClientCall)
  | advance (t : T)
  /-- `poll` returns, with the connector's channel or without. -/
  | poll (active : Bool)
  /-- The connector's channel is handled. -/
  | handleEvent (revents : EventMask) (soError : ℕ) (selfConnect : Bool)
  /-- A timer fires. -/
  | timer (i : ℕ) (errno : Errno)
  /-- The connection sees that it is closed. -/
  | closeEvent (errno : Errno)
  /-- Somebody calls `forceClose` on the connection. -/
  | forceClose (fd : ℕ)
  /-- `doPendingFunctors` begins. -/
  | swap
  /-- The next functor of the batch. -/
  | call (errno : Errno)
  /-- `Connector::restart`, called by someone else than the client. -/
  | restart (errno : Errno)

def handleEvent (revents : EventMask) (soError : ℕ) (selfConnect : Bool) :
    Checked (TcpClient T) := do
  let c ← s.connector.handleEvent revents soError selfConnect
  .ok { s.newConnection c with active := false }

def timer (i : ℕ) (errno : Errno) : Checked (TcpClient T) := do
  let c ← { s.connector with timers := s.connector.timers.eraseIdx i }.startInLoop errno
  .ok { s with connector := c }

def call (errno : Errno) : Checked (TcpClient T) :=
  match s.functors with
  | [] => .error .badAccess
  | f :: functors => { s with functors := functors }.runFunctor errno f

def step : Action T → Except Halt (TcpClient T)
  | .connect errno => attempt True (s.connect errno)
  | .stop => guarded True s.stop
  | .disconnect => guarded True s.disconnect
  | .enableRetry => guarded True { s with retry := true }
  | .enter t call =>
    guarded (s.caller t = []) { s with caller := Function.update s.caller t call.steps }
  | .advance t =>
    match s.caller t with
    | [] => .error .disabled
    | c :: cs => .ok { s.runCallStep c with caller := Function.update s.caller t cs }
  | .poll active =>
    guarded (s.handling = false ∧ s.functors = [] ∧ (active → s.isWatched))
      { s with handling := true, active := active, established := false }
  | .handleEvent revents soError selfConnect =>
    attempt (s.handling ∧ s.active) (s.handleEvent revents soError selfConnect)
  | .timer i errno => attempt (s.handling ∧ i < s.connector.timers.length) (s.timer i errno)
  | .closeEvent errno =>
    attempt (s.handling ∧ s.connection ≠ none ∧ s.established = false) (s.removeConnection errno)
  | .forceClose fd =>
    guarded (s.connection = some fd)
      { s with connector := s.connector.queueInLoop (.forceCloseInLoop fd) }
  | .swap =>
    -- the loop over the active channels has ended
    guarded (s.handling ∧ s.active = false)
      { s with
        handling := false, functors := s.connector.pendingFunctors,
        connector := { s.connector with pendingFunctors := [] } }
  | .call errno => attempt (s.handling = false ∧ s.functors ≠ []) (s.call errno)
  | .restart errno => attempt True (do
      let c ← s.connector.restart errno
      .ok { s with connector := c })

end TcpClient

end Fishnet
