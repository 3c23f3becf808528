import Mathlib.Data.Char
import Mathlib.Data.List.Lex
import Fishnet.Net.ServerLife

/-!
# Destroying the server

`~TcpServer` runs in the base loop. It lets go of every connection in `connections_` and has
`connectDestroyed` run in the loop of the connection: at once if that is the base loop, and
otherwise through the queue. Then the members are destroyed, and with the thread pool its threads:
each loop is told to quit, and its thread is joined.

What was bound to the server outlives it. `closeCallback_` of every connection is `removeConnection`
with a plain pointer to the server, and so is a queued `removeConnectionInLoop`. Calling either
afterwards is an access to a destroyed object.

## Which threads run

The base loop takes no step between the destructor and the end of the last I/O thread. An I/O loop
goes on until it has seen `quit_`. It tests `quit_` between two iterations, so a functor that was
queued after the last swap of the queue is not run: it is destroyed together with the loop, and if
it was the last owner of its connection, so is the connection.

The whole body of the destructor is one step. What an I/O loop does between two connections of the
body is taken before it or after it.
-/

namespace Fishnet

open TcpConnection Function

namespace TcpServer

variable (cfg : ServerConfig) (s : TcpServer)

/-! ## The destructor -/

/-- The connections in `connections_`, in the order of their names. -/
def connectionIds : List ConnId :=
  ((List.range s.nextConnId).filter fun id ↦
    decide (s.connections (cfg.connName id) = some id)).insertionSort
      fun i j ↦ cfg.connName i ≤ cfg.connName j

/-- The body of the loop in `~TcpServer`. -/
def destroyConnection (env : ConnId → Env) (s : TcpServer) (id : ConnId) : Checked TcpServer :=
  match s.conns id with
  | none => pure s
  | some r =>
    if r.loop = 0 then s.connectDestroyed id (env id)
    else pure (s.queueInLoop r.loop (.connectDestroyed id))

/-- `~TcpServer`, up to the destruction of the members. -/
def destroy (env : ConnId → Env) : Checked TcpServer :=
  runAll (destroyConnection env) { s with connections := fun _ ↦ none } (s.connectionIds cfg)

/-! ## Afterwards -/

/-- What an entry in the trace of a connection means when the server has been destroyed. -/
def applyOrphanEffect (id : ConnId) (loop : LoopId) (s : TcpServer) :
    Effect → Checked TcpServer
  | .closeCallback => .error .badAccess
  | e => applyEffect id loop s e

/-- `withConn` when the server has been destroyed. -/
def withOrphan (id : ConnId) (op : TcpConnection → Checked TcpConnection) : Checked TcpServer :=
  match s.conns id with
  | none => pure s
  | some r => do
    let c ← op r.conn
    let s := { s with conns := update s.conns id (some { r with conn := c }) }
    runAll (applyOrphanEffect id r.loop) s (c.trace.drop r.conn.trace.length)

/-- `runTask` when the server has been destroyed. `connectEstablished` and `connectDestroyed` are
functions of the connection, and neither calls `closeCallback_`. -/
def runOrphanTask (env : Env) : Task → Checked TcpServer
  | .connectEstablished id => s.connectEstablished id env
  | .functor id f => s.withOrphan id fun c ↦ c.runFunctor env f
  | .removeConnectionInLoop _ => .error .badAccess
  | .connectDestroyed id => s.connectDestroyed id env

/-- One step when the server has been destroyed. Nothing is accepted any more. -/
def orphanStep (s : TcpServer) : ServerAct → Checked TcpServer
  | .accept _ => pure s
  | .event id revents env => (s.mark id .event).withOrphan id fun c ↦ c.handleEvent revents env
  | .call id inLoop k => s.withOrphan id fun c ↦ c.call inLoop k
  | .functor loop env =>
    match s.queues loop with
    | [] => pure s
    | t :: rest => { s with queues := update s.queues loop rest }.runOrphanTask env t
  | .timer id =>
    if s.delayed id = 0 then pure s
    else { s with delayed := update s.delayed id (s.delayed id - 1) }.withOrphan id fun c ↦
      pure c.forceClose

/-- The loop of a connection. -/
def loopOf (id : ConnId) : LoopId := ((s.conns id).map (·.loop)).getD 0

end TcpServer

/-- `removeConnectionInLoop` of a connection. It refers to the server. -/
def Task.isRemoval : Task → Bool
  | removeConnectionInLoop _ => true
  | _ => false

/-- The assertions of `~TcpConnection` and `~Channel` hold. -/
def ServerConn.destructible (r : ServerConn) : Bool :=
  r.conn.state = .kDisconnected && !r.conn.channel.registration.inChannels

/-- A server that can be destroyed, and the threads of its loops. -/
structure ServerProcess where
  server : TcpServer
  /-- The server has been destroyed. -/
  destroyed : Bool
  /-- The I/O loops whose threads have ended. -/
  exited : LoopId → Bool

/-- What can happen next. -/
inductive ProcessAct where
  /-- A step of one of the loops, or a call by another thread. -/
  | act (a : ServerAct)
  /-- `~TcpServer`; what the connection callbacks do can differ from connection to connection. -/
  | destroy (env : ConnId → Env)
  /-- An I/O loop sees `quit_`, and its thread ends. -/
  | exit (loop : LoopId)

namespace ServerProcess

/-- A server that has just been started. -/
def start : ServerProcess := ⟨.start, false, fun _ ↦ false⟩

variable (cfg : ServerConfig) (w : ServerProcess)

/-- The thread of a loop can take a step. -/
def Runs (loop : LoopId) : Prop :=
  w.exited loop = false ∧
    (w.destroyed = true → loop = 0 → ∀ i < cfg.numThreads, w.exited (i + 1) = true)

instance (loop : LoopId) : Decidable (w.Runs cfg loop) := inferInstanceAs (Decidable (_ ∧ _))

/-- A step of the server is possible. -/
def CanAct : ServerAct → Prop
  | .accept _ => w.destroyed = false
  | .event id _ _ => w.Runs cfg (w.server.loopOf id)
  | .call id inLoop _ => w.exited (w.server.loopOf id) = false ∧
    (inLoop = true → w.Runs cfg (w.server.loopOf id))
  | .functor loop _ => w.Runs cfg loop
  | .timer id => w.Runs cfg (w.server.loopOf id)

instance : (a : ServerAct) → Decidable (w.CanAct cfg a)
  | .accept _ => inferInstanceAs (Decidable (_ = _))
  | .event _ _ _ => inferInstanceAs (Decidable (w.Runs cfg _))
  | .call _ _ _ => inferInstanceAs (Decidable (_ ∧ _))
  | .functor _ _ => inferInstanceAs (Decidable (w.Runs cfg _))
  | .timer _ => inferInstanceAs (Decidable (w.Runs cfg _))

/-- An action is possible. -/
def Enabled : ProcessAct → Prop
  | .act a => w.CanAct cfg a
  | .destroy _ => w.destroyed = false
  | .exit loop =>
    w.destroyed = true ∧ (0 < loop ∧ loop ≤ cfg.numThreads) ∧ w.exited loop = false

instance : (a : ProcessAct) → Decidable (w.Enabled cfg a)
  | .act a => inferInstanceAs (Decidable (w.CanAct cfg a))
  | .destroy _ => inferInstanceAs (Decidable (_ = _))
  | .exit _ => inferInstanceAs (Decidable (_ ∧ _))

/-- The functors left in the queue of `loop` are destroyed. A connection goes with its
`connectEstablished` or `connectDestroyed`, unless a `removeConnectionInLoop` still holds it. -/
def DropsSafely (s : TcpServer) (loop : LoopId) : Prop :=
  ∀ t ∈ s.queues loop, t.isLife = true → (∀ u ∈ s.queues 0, u.isRemoval = true → u.id ≠ t.id) →
    ((s.conns t.id).all ServerConn.destructible) = true

instance (s : TcpServer) (loop : LoopId) : Decidable (DropsSafely s loop) :=
  inferInstanceAs (Decidable (∀ t ∈ s.queues loop, _))

/-- What an action does. -/
def perform : ProcessAct → Checked ServerProcess
  | .act a => do
    let s ← if w.destroyed then w.server.orphanStep a else w.server.step cfg a
    pure { w with server := s }
  | .destroy env => do
    let s ← w.server.destroy cfg env
    pure { w with server := s, destroyed := true }
  | .exit loop => do
    assert (DropsSafely w.server loop)
    pure { w with
      server := { w.server with queues := update w.server.queues loop [] }
      exited := update w.exited loop true }

/-- One step. -/
def step (w : ServerProcess) (a : ProcessAct) : Except Halt ServerProcess :=
  attempt (w.Enabled cfg a) (w.perform cfg a)

end ServerProcess

end Fishnet
