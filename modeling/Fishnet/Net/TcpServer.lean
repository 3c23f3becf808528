import Fishnet.Net.ConnectionRun

/-!
# The TCP server

`TcpServer` with its event loops: the base loop, in which connections are accepted, and the loops of
the thread pool, in which they live. Each loop has a queue of functors. Every public operation,
every dispatch and every functor body is one step, taken by any thread at any time.

## What runs where

`runInLoop` runs its functor at once in the thread of that loop and queues it otherwise. So with no
I/O threads a new connection is established as soon as it is accepted, and a closed connection is
taken out of `connections_` while it is still being dispatched; with I/O threads both happen later.

## Marks

For the specification each connection keeps a list of marks: which of the calls that make up its
life have been made, in order. Nothing reads it.
-/

namespace Fishnet

open TcpConnection Function

/-- A loop: `0` is the base loop, the others are those of the thread pool. -/
abbrev LoopId := ℕ

/-- The number of a connection, from `nextConnId_`. -/
abbrev ConnId := ℕ

/-- The parameters of a server. -/
structure ServerConfig where
  /-- `name_`. -/
  name : List Char
  /-- `ipPort_`; `"[" address "]:" port` is never longer than this. -/
  ipPort : List Char
  ipPort_short : ipPort.length ≤ 51
  /-- `numThreads_` of the thread pool. -/
  numThreads : ℕ
  /-- The back end of the pollers. -/
  poller : PollerKind
  /-- Whether `writeCompleteCallback_` is set. -/
  writeCompleteCallback : Bool

/-- The name of a connection: `snprintf` into 64 characters, one of which is the terminator. -/
def ServerConfig.connName (cfg : ServerConfig) (id : ConnId) : List Char :=
  cfg.name ++ ('-' :: cfg.ipPort ++ '#' :: Nat.toDigits 10 id).take 63

/-- What happens in the life of a connection. -/
inductive Mark where
  /-- `connectEstablished` runs. -/
  | established
  /-- A dispatch begins. -/
  | event
  /-- `connectionCallback_` is called in this state. -/
  | callback (state : StateE)
  /-- `connections_.erase` removes this many entries. -/
  | erased (n : ℕ)
  /-- `connectDestroyed` runs, with these events in the channel. -/
  | destroyed (events : EventMask)
  deriving DecidableEq

/-- A functor in the queue of a loop. -/
inductive Task where
  | connectEstablished (id : ConnId)
  | functor (id : ConnId) (f : Functor)
  | removeConnectionInLoop (id : ConnId)
  | connectDestroyed (id : ConnId)

/-- A connection of the server. -/
structure ServerConn where
  conn : TcpConnection
  /-- `loop_`. -/
  loop : LoopId
  /-- `name_`. -/
  name : List Char
  marks : List Mark

/-- The state of the server and its loops. -/
structure TcpServer where
  /-- `nextConnId_`. -/
  nextConnId : ConnId
  /-- `next_` of the thread pool. -/
  next : ℕ
  /-- `connections_`. -/
  connections : List Char → Option ConnId
  /-- All connections ever accepted. -/
  conns : ConnId → Option ServerConn
  /-- `pendingFunctors_` of each loop. -/
  queues : LoopId → List Task
  /-- How many timers to `forceClose` are set for a connection. -/
  delayed : ConnId → ℕ

/-- What can happen next. -/
inductive ServerAct where
  /-- A peer connects. -/
  | accept (env : Env)
  /-- The poller reports `revents` for a connection. -/
  | event (id : ConnId) (revents : EventMask) (env : Env)
  /-- A public operation of a connection, in the thread of its loop or in another one. -/
  | call (id : ConnId) (inLoop : Bool) (k : Call)
  /-- A loop runs its next functor. -/
  | functor (loop : LoopId) (env : Env)
  /-- A timer set by `forceCloseWithDelay` goes off. -/
  | timer (id : ConnId)

namespace TcpServer

/-- A server that has just been started. -/
def start : TcpServer := ⟨1, 0, fun _ ↦ none, fun _ ↦ none, fun _ ↦ [], fun _ ↦ 0⟩

variable (cfg : ServerConfig) (s : TcpServer)

/-- `EventLoopThreadPool::getNextLoop`: the loop, and `next_` afterwards. -/
def getNextLoop (numThreads next : ℕ) : LoopId × ℕ :=
  if numThreads = 0 then (0, next)
  else (next + 1, if numThreads ≤ next + 1 then 0 else next + 1)

def queueInLoop (loop : LoopId) (t : Task) : TcpServer :=
  { s with queues := update s.queues loop (s.queues loop ++ [t]) }

def mark (id : ConnId) (m : Mark) : TcpServer :=
  let conn := (s.conns id).map fun r ↦ { r with marks := r.marks ++ [m] }
  { s with conns := update s.conns id conn }

def removeConnectionInLoop (id : ConnId) : Checked TcpServer :=
  match s.conns id with
  | none => pure s
  | some r => do
    let n := if (s.connections r.name).isSome then 1 else 0
    let s := s.mark id (.erased n)
    let s := { s with connections := update s.connections r.name none }
    assert (n = 1)
    pure (s.queueInLoop r.loop (.connectDestroyed id))

/-- `removeConnection`, the close callback, in the thread of `loop`. -/
def removeConnection (loop : LoopId) (id : ConnId) : Checked TcpServer :=
  if loop = 0 then s.removeConnectionInLoop id
  else pure (s.queueInLoop 0 (.removeConnectionInLoop id))

/-- What an entry in the trace of a connection means for the server. -/
def applyEffect (id : ConnId) (loop : LoopId) (s : TcpServer) : Effect → Checked TcpServer
  | .queueInLoop f => pure (s.queueInLoop loop (.functor id f))
  | .runAfter => pure { s with delayed := update s.delayed id (s.delayed id + 1) }
  | .connectionCallback state => pure (s.mark id (.callback state))
  | .closeCallback => s.removeConnection loop id
  | _ => pure s

/-- Run a function of a connection, and then what it set off. -/
def withConn (id : ConnId) (op : TcpConnection → Checked TcpConnection) : Checked TcpServer :=
  match s.conns id with
  | none => pure s
  | some r => do
    let c ← op r.conn
    let s := { s with conns := update s.conns id (some { r with conn := c }) }
    runAll (applyEffect id r.loop) s (c.trace.drop r.conn.trace.length)

def connectEstablished (id : ConnId) (env : Env) : Checked TcpServer :=
  (s.mark id .established).withConn id fun c ↦ c.connectEstablished env.onConnection

def connectDestroyed (id : ConnId) (env : Env) : Checked TcpServer :=
  match s.conns id with
  | none => pure s
  | some r => (s.mark id (.destroyed r.conn.channel.events)).withConn id fun c ↦
      c.connectDestroyed env.onConnection

def newConnection (env : Env) : Checked TcpServer := do
  let ioLoop := (getNextLoop cfg.numThreads s.next).1
  let id := s.nextConnId
  let conn ← TcpConnection.new cfg.poller cfg.writeCompleteCallback false (64 * 1024 * 1024)
  let name := cfg.connName id
  let s := { s with
    nextConnId := id + 1
    next := (getNextLoop cfg.numThreads s.next).2
    connections := update s.connections name (some id)
    conns := update s.conns id (some ⟨conn, ioLoop, name, []⟩) }
  if ioLoop = 0 then s.connectEstablished id env
  else pure (s.queueInLoop ioLoop (.connectEstablished id))

def runTask (env : Env) : Task → Checked TcpServer
  | .connectEstablished id => s.connectEstablished id env
  | .functor id f => s.withConn id fun c ↦ c.runFunctor env f
  | .removeConnectionInLoop id => s.removeConnectionInLoop id
  | .connectDestroyed id => s.connectDestroyed id env

/-- One step. -/
def step (s : TcpServer) : ServerAct → Checked TcpServer
  | .accept env => s.newConnection cfg env
  | .event id revents env => (s.mark id .event).withConn id fun c ↦ c.handleEvent revents env
  | .call id inLoop k => s.withConn id fun c ↦ c.call inLoop k
  | .functor loop env =>
    match s.queues loop with
    | [] => pure s
    | t :: rest => { s with queues := update s.queues loop rest }.runTask env t
  | .timer id =>
    if s.delayed id = 0 then pure s
    else { s with delayed := update s.delayed id (s.delayed id - 1) }.withConn id fun c ↦
      pure c.forceClose

end TcpServer

end Fishnet
