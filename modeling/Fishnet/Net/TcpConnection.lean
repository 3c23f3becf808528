import Fishnet.Library.Run
import Fishnet.Net.Buffer
import Fishnet.Net.Channel

/-!
# TCP connections

`TcpConnection` as a state machine: the public operations, the functors they queue on the loop, and
the handlers the channel calls. `write(2)` and `read(2)` answer as the environment likes, so each
function takes their results as arguments.

## User callbacks

A callback runs in the loop thread and may call any operation of its connection. It is given by the
list of calls it makes. `connectionCallback_`, `messageCallback_` and `closeCallback_` are always
set by the owner of the connection, the other two may be empty.

## The trace

What a connection does to the outside (bytes handed to the kernel, functors queued, callbacks made)
is appended to `trace`, which no function reads. It also records, for the specification, which
messages `send` took, and what was left unsent when `shutdownWrite()` was called.

`inputBuffer_`, addresses, the context and logging are left out; `handleRead` gets the number that
`readFd` returned.
-/

namespace Fishnet

/-- What `write(2)` returns: at most `n` bytes are taken, or an error. -/
inductive WriteResult where
  | accepted (n : ℕ)
  | error (errno : ℕ)
  deriving DecidableEq, Repr

namespace WriteResult

def EWOULDBLOCK : ℕ := 11
def EPIPE : ℕ := 32
def ECONNRESET : ℕ := 104

/-- The errors after which `sendInLoop` gives its data up. -/
def isFatal : WriteResult → Bool
  | accepted _ => false
  | error errno => errno != EWOULDBLOCK && (errno == EPIPE || errno == ECONNRESET)

end WriteResult

/-- A message: bytes that fit into an object. -/
abbrev Message := { data : Bytes // data.length < sizeBound }

/-- A `Buffer` handed to `send`. -/
abbrev ValidBuffer := { b : Buffer // b.Inv }

/-- The readable bytes of a buffer as a message. -/
def ValidBuffer.message (b : ValidBuffer) : Message := ⟨b.1.content, b.2.content_lt⟩

/-- `TcpConnection::StateE`. -/
inductive StateE where
  | kDisconnected
  | kConnecting
  | kConnected
  | kDisconnecting
  deriving DecidableEq, Repr

/-- The states in which `handleClose` may run. -/
def StateE.isOpen : StateE → Bool
  | kConnected => true
  | kDisconnecting => true
  | _ => false

/-- A public operation; `write` is what `write(2)` will answer if it is tried. -/
inductive Call where
  | send (message : Message) (write : WriteResult)
  | sendBuffer (buf : ValidBuffer) (write : WriteResult)
  | shutdown
  | forceClose
  | forceCloseWithDelay
  | startRead
  | stopRead

/-- The operations that change `reading_`. -/
def Call.isReadControl : Call → Bool
  | startRead => true
  | stopRead => true
  | _ => false

/-- What a connection queues on its loop. -/
inductive Functor where
  | sendInLoop (message : Message)
  | shutdownInLoop
  | forceCloseInLoop
  | startReadInLoop
  | stopReadInLoop
  | writeComplete
  | highWaterMark (len : ℕ)

/-- A queued `startRead` or `stopRead`. -/
def Functor.isReadControl : Functor → Bool
  | startReadInLoop => true
  | stopReadInLoop => true
  | _ => false

/-- One entry of the trace. -/
inductive Effect where
  /-- `send` was called while `kConnected`. -/
  | sent (data : Bytes)
  /-- The kernel took these bytes. -/
  | wrote (data : Bytes)
  /-- `shutdownWrite()`, with the content of `outputBuffer_` at that moment. -/
  | shutdownWrite (unsent : Bytes)
  /-- `queueInLoop(f)`. -/
  | queueInLoop (f : Functor)
  /-- `runAfter` with a weak callback to `forceClose`. -/
  | runAfter
  | messageCallback
  | connectionCallback (state : StateE)
  | closeCallback

namespace Effect

/-- The bytes the kernel took, in order. -/
def wroteBytes : List Effect → Bytes
  | [] => []
  | wrote data :: es => data ++ wroteBytes es
  | _ :: es => wroteBytes es

/-- The messages `send` took, in order. -/
def sentBytes : List Effect → Bytes
  | [] => []
  | sent data :: es => data ++ sentBytes es
  | _ :: es => sentBytes es

/-- For each `shutdownWrite()`, what was unsent then. -/
def unsentAtShutdown : List Effect → List Bytes
  | [] => []
  | shutdownWrite unsent :: es => unsent :: unsentAtShutdown es
  | _ :: es => unsentAtShutdown es

/-- A functor that an operation queued because another thread called it. -/
def isRemote : Effect → Bool
  | queueInLoop (.sendInLoop _) => true
  | queueInLoop .shutdownInLoop => true
  | queueInLoop .startReadInLoop => true
  | queueInLoop .stopReadInLoop => true
  | _ => false

/-- The callbacks that mark the life of a connection. -/
def isLifecycle : Effect → Bool
  | connectionCallback _ => true
  | closeCallback => true
  | _ => false

def lifecycle (es : List Effect) : List Effect := es.filter isLifecycle

@[simp] theorem wroteBytes_append (es fs : List Effect) :
    wroteBytes (es ++ fs) = wroteBytes es ++ wroteBytes fs := by
  induction es with
  | nil => rfl
  | cons e es ih => cases e <;> simp [wroteBytes, ih]

@[simp] theorem sentBytes_append (es fs : List Effect) :
    sentBytes (es ++ fs) = sentBytes es ++ sentBytes fs := by
  induction es with
  | nil => rfl
  | cons e es ih => cases e <;> simp [sentBytes, ih]

@[simp] theorem unsentAtShutdown_append (es fs : List Effect) :
    unsentAtShutdown (es ++ fs) = unsentAtShutdown es ++ unsentAtShutdown fs := by
  induction es with
  | nil => rfl
  | cons e es ih => cases e <;> simp [unsentAtShutdown, ih]

@[simp] theorem lifecycle_append (es fs : List Effect) :
    lifecycle (es ++ fs) = lifecycle es ++ lifecycle fs :=
  List.filter_append ..

end Effect

/-- `net::TcpConnection`. -/
structure TcpConnection where
  /-- `state_`. -/
  state : StateE
  /-- `reading_`. -/
  reading : Bool
  /-- `channel_`. -/
  channel : Channel
  /-- Whether `writeCompleteCallback_` is set. -/
  writeCompleteCallback : Bool
  /-- Whether `highWaterMarkCallback_` is set. -/
  highWaterMarkCallback : Bool
  /-- `highWaterMark_`. -/
  highWaterMark : ℕ
  /-- `outputBuffer_`. -/
  outputBuffer : Buffer
  /-- What the connection has done so far, oldest first. -/
  trace : List Effect

namespace TcpConnection

/-! ## The functions -/

/-- A connection as constructed and set up by its owner. -/
def new (poller : PollerKind) (writeCompleteCallback highWaterMarkCallback : Bool)
    (highWaterMark : ℕ) : Checked TcpConnection := do
  let outputBuffer ← Buffer.new Buffer.kInitialSize
  pure ⟨.kConnecting, true, Channel.new poller, writeCompleteCallback, highWaterMarkCallback,
    highWaterMark, outputBuffer, []⟩

variable (c : TcpConnection)

def emits (es : List Effect) : TcpConnection := { c with trace := c.trace ++ es }

@[simp] theorem emits_state (es : List Effect) : (c.emits es).state = c.state := rfl

@[simp] theorem emits_channel (es : List Effect) : (c.emits es).channel = c.channel := rfl

@[simp] theorem emits_trace (es : List Effect) : (c.emits es).trace = c.trace ++ es := rfl

@[simp] theorem emits_outputBuffer (es : List Effect) :
    (c.emits es).outputBuffer = c.outputBuffer := rfl

@[simp] theorem emits_nil : c.emits [] = c := by
  rw [emits, List.append_nil]

@[simp] theorem emits_emits (es fs : List Effect) : (c.emits es).emits fs = c.emits (es ++ fs) := by
  rw [emits, emits_trace, List.append_assoc]
  rfl

/-- The outcome of the direct write of `sendInLoop`. -/
structure Direct where
  conn : TcpConnection
  nwrote : ℕ
  remaining : ℕ
  faultError : Bool

/-- The first half of `sendInLoop`: write directly if nothing is waiting. -/
def directWrite (data : Bytes) (w : WriteResult) : Direct :=
  if !c.channel.isWriting && c.outputBuffer.readableBytes == 0 then
    match w with
    | .accepted k =>
      let nwrote := min k data.length
      let remaining := sizeSub data.length nwrote
      let c := c.emits [.wrote (data.take nwrote)]
      ⟨if remaining == 0 && c.writeCompleteCallback then
          c.emits [.queueInLoop .writeComplete] else c, nwrote, remaining, false⟩
    | .error errno => ⟨c, 0, data.length, (WriteResult.error errno).isFatal⟩
  else
    ⟨c, 0, data.length, false⟩

/-- The second half of `sendInLoop`: keep the `remaining` bytes, `rest`, in `outputBuffer_`. -/
def bufferRest (rest : Bytes) : Checked TcpConnection := do
  let oldLen := c.outputBuffer.readableBytes
  let newLen := sizeAdd oldLen rest.length
  let c := if decide (c.highWaterMark ≤ newLen) && decide (oldLen < c.highWaterMark) &&
      c.highWaterMarkCallback then c.emits [.queueInLoop (.highWaterMark newLen)] else c
  let outputBuffer ← c.outputBuffer.append rest
  let channel ← if c.channel.isWriting then pure c.channel else c.channel.enableWriting
  pure { c with outputBuffer := outputBuffer, channel := channel }

def sendInLoop (data : Bytes) (w : WriteResult) : Checked TcpConnection := do
  if c.state = .kDisconnected then
    pure c
  else
    let direct := c.directWrite data w
    assert (direct.remaining ≤ data.length)
    if !direct.faultError && decide (0 < direct.remaining) then
      direct.conn.bufferRest (data.drop direct.nwrote)
    else
      pure direct.conn

variable (inLoop : Bool)

/-- `send(const StringPiece&)`, called in the loop thread or in another one. -/
def send (message : Message) (w : WriteResult) : Checked TcpConnection :=
  if c.state = .kConnected then
    let c := c.emits [.sent message.1]
    if inLoop then c.sendInLoop message.1 w
    else pure (c.emits [.queueInLoop (.sendInLoop message)])
  else
    pure c

/-- `send(Buffer*)`, and the buffer it leaves to the caller. Both branches empty it. The string that
another thread queues becomes a `StringPiece`, with an `int` as its length: the model is right for
less than `2 ^ 31` bytes. -/
def sendBuffer (buf : ValidBuffer) (w : WriteResult) : Checked (TcpConnection × Buffer) :=
  if c.state = .kConnected then do
    let c := c.emits [.sent buf.1.content]
    if inLoop then
      let c ← c.sendInLoop buf.1.content w
      pure (c, buf.1.retrieveAll)
    else
      let (_, rest) ← buf.1.retrieveAsString buf.1.readableBytes
      pure (c.emits [.queueInLoop (.sendInLoop buf.message)], rest)
  else
    pure (c, buf.1)

def shutdownInLoop : TcpConnection :=
  if c.channel.isWriting then c else c.emits [.shutdownWrite c.outputBuffer.content]

def shutdown : TcpConnection :=
  if c.state = .kConnected then
    let c := { c with state := .kDisconnecting }
    if inLoop then c.shutdownInLoop else c.emits [.queueInLoop .shutdownInLoop]
  else
    c

def forceClose : TcpConnection :=
  if c.state.isOpen then
    { c with state := .kDisconnecting }.emits [.queueInLoop .forceCloseInLoop]
  else
    c

def forceCloseWithDelay : TcpConnection :=
  if c.state.isOpen then { c with state := .kDisconnecting }.emits [.runAfter] else c

def startReadInLoop : Checked TcpConnection :=
  if !c.reading || !c.channel.isReading then do
    let channel ← c.channel.enableReading
    pure { c with channel := channel, reading := true }
  else
    pure c

def stopReadInLoop : Checked TcpConnection :=
  if c.reading || c.channel.isReading then do
    let channel ← c.channel.disableReading
    pure { c with channel := channel, reading := false }
  else
    pure c

def startRead : Checked TcpConnection :=
  if inLoop then c.startReadInLoop else pure (c.emits [.queueInLoop .startReadInLoop])

def stopRead : Checked TcpConnection :=
  if inLoop then c.stopReadInLoop else pure (c.emits [.queueInLoop .stopReadInLoop])

/-- A public operation, by the thread of the loop or by another one. -/
def call : Call → Checked TcpConnection
  | .send message w => c.send inLoop message w
  | .sendBuffer buf w => Prod.fst <$> c.sendBuffer inLoop buf w
  | .shutdown => pure (c.shutdown inLoop)
  | .forceClose => pure c.forceClose
  | .forceCloseWithDelay => pure c.forceCloseWithDelay
  | .startRead => c.startRead inLoop
  | .stopRead => c.stopRead inLoop

/-- What a user callback does. -/
def calls (ks : List Call) : Checked TcpConnection :=
  runAll (fun c k ↦ c.call true k) c ks

variable (onConnection : List Call)

def connectionCallback : Checked TcpConnection :=
  (c.emits [.connectionCallback c.state]).calls onConnection

def connectEstablished : Checked TcpConnection := do
  assert (c.state = .kConnecting)
  let channel ← c.channel.enableReading
  { c with state := .kConnected, channel := channel }.connectionCallback onConnection

def connectDestroyed : Checked TcpConnection := do
  let c ← if c.state = .kConnected then do
      let channel ← c.channel.disableAll
      { c with state := .kDisconnected, channel := channel }.connectionCallback onConnection
    else pure c
  let channel ← c.channel.remove
  pure { c with channel := channel }

def handleClose : Checked TcpConnection := do
  assert (c.state.isOpen = true)
  let channel ← c.channel.disableAll
  let c ← { c with state := .kDisconnected, channel := channel }.connectionCallback onConnection
  pure (c.emits [.closeCallback])

/-- `handleRead`, with what `readFd` returned. `handleError` only logs. -/
def handleRead (n : ℤ) (onMessage onConnection : List Call) : Checked TcpConnection :=
  if 0 < n then (c.emits [.messageCallback]).calls onMessage
  else if n = 0 then c.handleClose onConnection
  else pure c

/-- The part of `handleWrite` that runs once `outputBuffer_` is empty. -/
def writeDone : Checked TcpConnection := do
  let channel ← c.channel.disableWriting
  let c := { c with channel := channel }
  let c := if c.writeCompleteCallback then c.emits [.queueInLoop .writeComplete] else c
  pure (if c.state = .kDisconnecting then c.shutdownInLoop else c)

def handleWrite (w : WriteResult) : Checked TcpConnection :=
  if c.channel.isWriting then
    match w with
    | .error _ => pure c
    | .accepted k =>
      let n := min k c.outputBuffer.readableBytes
      if 0 < n then do
        let outputBuffer ← c.outputBuffer.retrieve n
        let c : TcpConnection :=
          { c.emits [.wrote (c.outputBuffer.content.take n)] with outputBuffer := outputBuffer }
        if c.outputBuffer.readableBytes = 0 then c.writeDone else pure c
      else
        pure c
  else
    pure c

def forceCloseInLoop : Checked TcpConnection :=
  if c.state.isOpen then c.handleClose onConnection else pure c

/-- What the environment decides while a functor or a dispatch runs: what the system calls answer,
and what each user callback does. -/
structure Env where
  write : WriteResult
  read : ℤ
  onConnection : List Call
  onMessage : List Call
  onWriteComplete : List Call
  onHighWaterMark : List Call

/-- The body of a queued functor. -/
def runFunctor (env : Env) : Functor → Checked TcpConnection
  | .sendInLoop message => c.sendInLoop message.1 env.write
  | .shutdownInLoop => pure c.shutdownInLoop
  | .forceCloseInLoop => c.forceCloseInLoop env.onConnection
  | .startReadInLoop => c.startReadInLoop
  | .stopReadInLoop => c.stopReadInLoop
  | .writeComplete => c.calls env.onWriteComplete
  | .highWaterMark _ => c.calls env.onHighWaterMark

/-- `channel_->handleEvent` with the callbacks set by the constructor. -/
def handleEvent (revents : EventMask) (env : Env) : Checked TcpConnection :=
  Channel.handleEventWithGuard revents (fun c ↦ c.handleClose env.onConnection) pure
    (fun c ↦ c.handleRead env.read env.onMessage env.onConnection)
    (fun c ↦ c.handleWrite env.write) c

end TcpConnection

end Fishnet
