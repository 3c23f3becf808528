import Fishnet.Net.ConnectionRun

/-!
# The output stream of a connection

Bytes given to `send` reach the kernel on two ways: the direct write of `sendInLoop`, and
`outputBuffer_`, which `handleWrite` drains. The invariant `Streaming` says that nothing is lost,
repeated or reordered on the way, and that a half-close waits for the last byte.

The invariant compares with the messages that the connection notes as taken. Which ones those are is
said apart from it: `LoopState.sends` is what an action gives to `send` while the connection is
`kConnected`, by its calls alone, and the notes are exactly that (`runAll_sent`).

## Which runs

All operations are called in the thread of the loop, also by the callbacks. `write(2)` may take any
beginning of what it is offered or fail in any way, except that no direct write fails with `EPIPE`
or `ECONNRESET`: `sendInLoop` gives its data up after those. Besides writable events the poller may
report anything that closes the connection at most once.
-/

namespace Fishnet

open TcpConnection Effect List

/-- A `send` whose direct write would fail for good. -/
def Call.isFatal : Call → Bool
  | send _ w => w.isFatal
  | sendBuffer _ w => w.isFatal
  | _ => false

/-- No callback makes a `send` that fails for good. -/
def TcpConnection.Env.NonFatal (env : Env) : Prop :=
  ∀ k ∈ env.onConnection ++ env.onMessage ++ env.onWriteComplete ++ env.onHighWaterMark,
    k.isFatal = false

/-- The message of a `send`, and what `write(2)` will answer. -/
def Call.sends : Call → Option (Message × WriteResult)
  | send message w => some (message, w)
  | sendBuffer buf w => some (buf.message, w)
  | _ => none

/-- The bytes that a call gives to `send`. -/
def Call.data : Call → Bytes
  | send message _ => message.1
  | sendBuffer buf _ => buf.1.content
  | _ => []

/-- A call after which a connection is not `kConnected`. -/
def Call.closes : Call → Bool
  | shutdown => true
  | forceClose => true
  | forceCloseWithDelay => true
  | _ => false

/-- The bytes that calls give to `send` before a call among them closes the connection. -/
def StateE.sends (state : StateE) (ks : List Call) : Bytes :=
  if state = .kConnected then (ks.takeWhile fun k ↦ !k.closes).flatMap Call.data else []

theorem Call.of_sends {k : Call} {message : Message} {w : WriteResult}
    (h : k.sends = some (message, w)) :
    k.isFatal = w.isFatal ∧ k.data = message.1 ∧ k.closes = false := by
  cases k <;> cases h <;> exact ⟨rfl, rfl, rfl⟩

namespace TcpConnection

/-- What a call in the loop thread leads to. -/
inductive CallCase (c : TcpConnection) (k : Call) : TcpConnection → Prop where
  | send {c' : TcpConnection} {message : Message} {w : WriteResult}
      (hk : k.sends = some (message, w)) (hok : c.send true message w = .ok c') : CallCase c k c'
  | reread {c' : TcpConnection} (hsends : k.sends = none) (hcloses : k.closes = false)
      (hr : Rereads c c') : CallCase c k c'
  | ignored (hcloses : k.closes = true) (hstate : c.state ≠ .kConnected) : CallCase c k c
  | closing (hcloses : k.closes = true) (hopen : c.state.isOpen = true) {es : List Effect}
      (hes : es = [] ∨
        es = [.shutdownWrite c.outputBuffer.content] ∧ ¬c.channel.isWriting = true ∨
        es = [.queueInLoop .forceCloseInLoop] ∨ es = [.runAfter]) :
      CallCase c k ({ c with state := .kDisconnecting }.emits es)

theorem call_cases {c c' : TcpConnection} (h : c.Wf) {k : Call} (hok : c.call true k = .ok c') :
    CallCase c k c' := by
  have hclosed (hc : ¬c.state.isOpen = true) : c.state ≠ .kConnected := by
    intro hstate
    exact hc (by rw [hstate]; rfl)
  cases k with
  | send message w => exact .send rfl hok
  | sendBuffer buf w =>
    rw [call, sendBuffer_eq] at hok
    exact .send rfl hok
  | shutdown =>
    cases hok
    rw [shutdown]
    split
    next hstate =>
      have hopen : c.state.isOpen = true := by rw [hstate]; rfl
      rw [if_pos rfl, shutdownInLoop]
      split
      next =>
        rw [← emits_nil { c with state := .kDisconnecting }]
        exact .closing rfl hopen (Or.inl rfl)
      next hwriting => exact .closing rfl hopen (Or.inr (Or.inl ⟨rfl, hwriting⟩))
    next hstate => exact .ignored rfl hstate
  | forceClose =>
    cases hok
    rw [forceClose]
    split_ifs with hopen
    · exact .closing rfl hopen (Or.inr (Or.inr (Or.inl rfl)))
    · exact .ignored rfl (hclosed hopen)
  | forceCloseWithDelay =>
    cases hok
    rw [forceCloseWithDelay]
    split_ifs with hopen
    · exact .closing rfl hopen (Or.inr (Or.inr (Or.inr rfl)))
    · exact .ignored rfl (hclosed hopen)
  | startRead => exact .reread rfl rfl ((startReadInLoop_spec h).of_eq_ok hok)
  | stopRead => exact .reread rfl rfl ((stopReadInLoop_spec h).of_eq_ok hok)

/-- **The stream invariant.** While the connection is not disconnected, what the kernel took and
what is still buffered make up what was sent, and the channel waits for `POLLOUT` exactly if
something is buffered. Whenever the connection was half-closed, nothing was buffered. -/
structure Streaming (c : TcpConnection) : Prop where
  wf : c.Wf
  onLoop : ∀ e ∈ c.trace, e.isRemote = false
  unsent : ∀ unsent ∈ unsentAtShutdown c.trace, unsent = []
  whole : c.state ≠ .kDisconnected →
    wroteBytes c.trace ++ c.outputBuffer.content = sentBytes c.trace
  writing : c.state ≠ .kDisconnected →
    (c.channel.isWriting = true ↔ c.outputBuffer.content ≠ [])

namespace Streaming

variable {c c' : TcpConnection}

variable (h : c.Streaming)
include h

/-- A step that adds `es` to the trace. -/
theorem extend (hwf : c'.Wf) {es : List Effect}
    (htrace : c'.trace = c.trace ++ es) (hremote : ∀ e ∈ es, e.isRemote = false)
    (hunsent : ∀ u ∈ unsentAtShutdown es, u = [])
    (hstate : c'.state ≠ .kDisconnected → c.state ≠ .kDisconnected ∧
      wroteBytes es ++ c'.outputBuffer.content = c.outputBuffer.content ++ sentBytes es ∧
      (c'.channel.isWriting = true ↔ c'.outputBuffer.content ≠ [])) : c'.Streaming := by
  refine ⟨hwf, fun e he ↦ ?_, fun u hu ↦ ?_, fun hs ↦ ?_, fun hs ↦ (hstate hs).2.2⟩
  · rw [htrace] at he
    exact (mem_append.mp he).elim (h.onLoop e) (hremote e)
  · rw [htrace, unsentAtShutdown_append] at hu
    exact (mem_append.mp hu).elim (h.unsent u) (hunsent u)
  · obtain ⟨hs', hbytes, -⟩ := hstate hs
    rw [htrace, wroteBytes_append, sentBytes_append, ← h.whole hs', append_assoc, hbytes,
      append_assoc]

/-- An entry that is not about bytes or a half-close, and not queued by another thread, does not
matter. -/
theorem emit {e : Effect} (hwrote : wroteBytes [e] = [])
    (hsent : sentBytes [e] = []) (hunsent : unsentAtShutdown [e] = [])
    (hremote : e.isRemote = false) : (c.emits [e]).Streaming := by
  refine h.extend ⟨h.wf.buffer, h.wf.channel⟩ rfl (by simpa using hremote) ?_ fun hs ↦
    ⟨hs, ?_, h.writing hs⟩
  · rw [hunsent]
    exact fun _ hu ↦ absurd hu not_mem_nil
  · rw [hwrote, hsent, append_nil]
    rfl

/-- Neither does `reading_`, nor a change of the channel that keeps its write event, nor a change of
state that does not bring the connection back. -/
theorem of_same (hwf : c'.Wf) (htrace : c'.trace = c.trace)
    (hbuffer : c'.outputBuffer = c.outputBuffer)
    (hstate : c'.state ≠ .kDisconnected →
      c.state ≠ .kDisconnected ∧ c'.channel.isWriting = c.channel.isWriting) : c'.Streaming := by
  refine ⟨hwf, ?_, ?_, fun hs ↦ ?_, fun hs ↦ ?_⟩
  · rw [htrace]
    exact h.onLoop
  · rw [htrace]
    exact h.unsent
  · rw [htrace, hbuffer]
    exact h.whole (hstate hs).1
  · rw [(hstate hs).2, hbuffer]
    exact h.writing (hstate hs).1

theorem of_rereads (hr : Rereads c c') : c'.Streaming := by
  obtain ⟨channel, reading, rfl⟩ := hr.eq
  exact h.of_same ⟨h.wf.buffer, hr.consistent⟩ rfl rfl fun hs ↦ ⟨hs, hr.writing⟩

/-- A message that `send` takes is written or buffered behind what was sent before. -/
theorem send (message : Message) {w : WriteResult} (hw : w.isFatal = false) :
    Yields (c.send true message w) Streaming := by
  rw [TcpConnection.send]
  split
  next hc =>
    rw [if_pos rfl]
    set d := c.emits [.sent message.1] with hd
    have hne : d.state ≠ .kDisconnected := by
      rw [hd, emits_state, hc]
      decide
    have hwf : d.Wf := ⟨h.wf.buffer, h.wf.channel⟩
    refine (sendInLoop_spec hwf hne message.2 w).imp fun c' hs ↦ ?_
    obtain ⟨es, out, htrace, heffects, hout⟩ := hs.trace
    have htrace' : c'.trace = c.trace ++ ([.sent message.1] ++ es) := by
      rw [htrace, hd, emits_trace, append_assoc]
    refine h.extend hs.wf htrace' ?_ ?_ fun _ ↦ ⟨hne, ?_, hs.writing hw (h.writing hne)⟩
    · exact forall_mem_cons.mpr ⟨rfl, heffects.onLoop⟩
    · exact heffects.unsent
    · rw [wroteBytes_append, sentBytes_append, heffects.wrote, heffects.sent]
      change out ++ c'.outputBuffer.content = _
      rw [hout hw]
      simp [sentBytes, hd]
  next => exact yields_pure h

theorem call {k : Call} (hk : k.isFatal = false) : Yields (c.call true k) Streaming := by
  refine (call_spec h.wf true k).imp_ok fun c' hok _ ↦ ?_
  cases call_cases h.wf hok with
  | send hsends hok => exact (h.send _ ((Call.of_sends hsends).1 ▸ hk)).of_eq_ok hok
  | reread _ _ hr => exact h.of_rereads hr
  | ignored => exact h
  | closing _ hopen hes =>
    have hne : c.state ≠ .kDisconnected := by
      intro hs
      rw [hs] at hopen
      cases hopen
    have hdown : ({ c with state := .kDisconnecting } : TcpConnection).Streaming :=
      h.of_same ⟨h.wf.buffer, h.wf.channel⟩ rfl rfl fun _ ↦ ⟨hne, rfl⟩
    obtain rfl | ⟨rfl, hidle⟩ | rfl | rfl := hes
    · rwa [emits_nil]
    · -- it half-closes at once only if nothing is buffered
      have hnil : c.outputBuffer.content = [] := by
        by_contra hcontent
        exact hidle ((h.writing hne).mpr hcontent)
      refine hdown.extend ⟨h.wf.buffer, h.wf.channel⟩ rfl ?_ ?_ fun hs ↦
        ⟨hs, ?_, hdown.writing hs⟩
      · exact fun e he ↦ mem_singleton.mp he ▸ rfl
      · exact fun u hu ↦ mem_singleton.mp hu ▸ hnil
      · exact (append_nil _).symm
    · exact hdown.emit rfl rfl rfl rfl
    · exact hdown.emit rfl rfl rfl rfl

theorem calls {ks : List Call} (hks : ∀ k ∈ ks, k.isFatal = false) :
    Yields (c.calls ks) Streaming :=
  yields_runAll (fun _ _ hd hk ↦ hd.call hk) h (along_of_forall fun _ ↦ hks)

theorem handleWrite (w : WriteResult) : Yields (c.handleWrite w) Streaming := by
  refine (handleWrite_spec h.wf w).imp fun c' hdr ↦ ?_
  obtain ⟨es, out, htrace, heffects, hout⟩ := hdr.trace
  refine h.extend hdr.wf htrace heffects.onLoop heffects.unsent fun hs ↦ ?_
  rw [hdr.state] at hs
  refine ⟨hs, ?_, hdr.writing (h.writing hs)⟩
  rw [heffects.wrote, heffects.sent, hout, append_nil]

/-- After a close there is nothing left to keep: no operation of a disconnected connection writes.
-/
theorem handleClose (hopen : c.state.isOpen = true) {ks : List Call}
    (hks : ∀ k ∈ ks, k.isFatal = false) : Yields (c.handleClose ks) Streaming := by
  obtain ⟨ch, hch, -, htracked, -⟩ := Channel.setEvents_spec h.wf.channel Channel.kNoneEvent
  have hnone : c.channel.disableAll = .ok ch := hch
  rw [TcpConnection.handleClose, assert_bind_of hopen, bind_of_ok hnone]
  have hdown : ({ c with state := .kDisconnected, channel := ch } : TcpConnection).Streaming :=
    h.of_same ⟨h.wf.buffer, htracked.consistent⟩ rfl rfl fun hs ↦ absurd rfl hs
  have hcallback : (({ c with state := .kDisconnected, channel := ch } : TcpConnection).emits
      [.connectionCallback .kDisconnected]).Streaming := hdown.emit rfl rfl rfl rfl
  exact (hcallback.calls hks).bind fun d hd ↦ yields_pure (hd.emit rfl rfl rfl rfl)

theorem connectEstablished (hc : c.state = .kConnecting) {ks : List Call}
    (hks : ∀ k ∈ ks, k.isFatal = false) : Yields (c.connectEstablished ks) Streaming := by
  obtain ⟨ch, heq, hl, hevents, -⟩ := connectEstablished_eq h.wf hc ks
  have hup : ({ c with state := .kConnected, channel := ch } : TcpConnection).Streaming := by
    refine h.of_same ⟨h.wf.buffer, hl.tracked.consistent⟩ rfl rfl fun _ ↦ ⟨?_, ?_⟩
    · rw [hc]
      decide
    · rw [Channel.isWriting, hevents]
      exact EventMask.or_has_of_disjoint (by decide) _
  have hcallback : (({ c with state := .kConnected, channel := ch } : TcpConnection).emits
      [.connectionCallback .kConnected]).Streaming := hup.emit rfl rfl rfl rfl
  rw [heq]
  exact hcallback.calls hks

/-- The functors that operations in the loop thread queue keep the stream whole. -/
theorem runFunctor {env : Env} (henv : env.NonFatal) {f : Functor}
    (hf : (Effect.queueInLoop f).isRemote = false) : Yields (c.runFunctor env f) Streaming := by
  cases f with
  | forceCloseInLoop =>
    rw [TcpConnection.runFunctor, forceCloseInLoop]
    split
    next hopen => exact h.handleClose hopen fun k hk ↦ henv k (by simp [hk])
    next => exact yields_pure h
  | writeComplete => exact h.calls fun k hk ↦ henv k (by simp [hk])
  | highWaterMark len => exact h.calls fun k hk ↦ henv k (by simp [hk])
  | sendInLoop message => cases hf
  | shutdownInLoop => cases hf
  | startReadInLoop => cases hf
  | stopReadInLoop => cases hf

theorem handleEvent {revents : EventMask} {env : Env} (henv : env.NonFatal)
    (honce : c.CloseOnce revents env.read) : Yields (c.handleEvent revents env) Streaming := by
  refine handleEvent_rule h honce (fun _ hopen ↦ ?_) (fun d hd _ ↦ ?_) fun d hd ↦ hd.handleWrite _
  · exact h.handleClose hopen fun k hk ↦ henv k (by simp [hk])
  · have hcallback : (d.emits [.messageCallback]).Streaming := hd.emit rfl rfl rfl rfl
    exact hcallback.calls fun k hk ↦ henv k (by simp [hk])

end Streaming

/-! ## What is noted as sent -/

section Sent

variable {c c' : TcpConnection}

theorem sends_of_ne {state : StateE} (h : state ≠ .kConnected) (ks : List Call) :
    state.sends ks = [] :=
  if_neg h

/-- The first of several calls, and the state in which it leaves the connection to the others. -/
theorem sends_cons {state state' : StateE} {k : Call}
    (h : state' = .kConnected ↔ state = .kConnected ∧ k.closes = false) (ks : List Call) :
    state.sends (k :: ks) = state.sends [k] ++ state'.sends ks := by
  by_cases hstate : state = .kConnected
  · cases hk : k.closes with
    | false => simp [StateE.sends, hstate, h, hk]
    | true => simp [StateE.sends, h, hk]
  · rw [sends_of_ne hstate, sends_of_ne hstate, sends_of_ne fun h' ↦ hstate (h.mp h').1]
    rfl

/-- `send` takes the whole message, in `kConnected` only. -/
theorem send_sent (h : c.Wf) {message : Message} {w : WriteResult}
    (hok : c.send true message w = .ok c') : c'.state = c.state ∧ sentBytes c'.trace =
      sentBytes c.trace ++ if c.state = .kConnected then message.1 else [] := by
  rw [TcpConnection.send] at hok
  split at hok
  next hc =>
    rw [if_pos rfl] at hok
    have hne : (c.emits [.sent message.1]).state ≠ .kDisconnected := by
      rw [emits_state, hc]
      decide
    have hwf : (c.emits [.sent message.1]).Wf := ⟨h.buffer, h.channel⟩
    have hs := (sendInLoop_spec hwf hne message.2 w).of_eq_ok hok
    obtain ⟨es, out, htrace, heffects, -⟩ := hs.trace
    refine ⟨hs.state, ?_⟩
    rw [htrace, sentBytes_append, heffects.sent, emits_trace, sentBytes_append, if_pos hc]
    simp [sentBytes]
  next hc =>
    cases hok
    rw [if_neg hc, append_nil]
    exact ⟨rfl, rfl⟩

theorem call_sent (h : c.Wf) {k : Call} (hok : c.call true k = .ok c') :
    (c'.state = .kConnected ↔ c.state = .kConnected ∧ k.closes = false) ∧
      sentBytes c'.trace = sentBytes c.trace ++ c.state.sends [k] := by
  cases call_cases h hok with
  | send hsends hok =>
    obtain ⟨-, hdata, hcloses⟩ := Call.of_sends hsends
    obtain ⟨hstate, hsent⟩ := send_sent h hok
    rw [hstate, hsent]
    simp [StateE.sends, hcloses, hdata]
  | reread hsends hcloses hr =>
    obtain ⟨channel, reading, rfl⟩ := hr.eq
    have hdata : k.data = [] := by cases k <;> first | rfl | cases hsends
    simp [StateE.sends, hcloses, hdata]
  | ignored hcloses hstate => simp [StateE.sends, hcloses, hstate]
  | closing hcloses _ hes =>
    obtain rfl | ⟨rfl, -⟩ | rfl | rfl := hes <;> simp [StateE.sends, hcloses, sentBytes]

theorem calls_sent (h : c.Wf) {ks : List Call} (hok : c.calls ks = .ok c') :
    sentBytes c'.trace = sentBytes c.trace ++ c.state.sends ks := by
  induction ks generalizing c with
  | nil =>
    cases hok
    simp [StateE.sends]
  | cons k ks ih =>
    obtain ⟨d, hd, hok⟩ := runAll_cons_eq_ok.mp hok
    obtain ⟨hstate, hsent⟩ := call_sent h hd
    have hwf : d.Wf := ((call_spec h true k).of_eq_ok hd).wf
    rw [ih hwf hok, hsent, sends_cons hstate ks, append_assoc]

/-- The notes of the callbacks themselves are not about bytes. -/
theorem callback_sent (h : c.Wf) {e : Effect} (he : sentBytes [e] = []) {ks : List Call}
    (hok : (c.emits [e]).calls ks = .ok c') :
    sentBytes c'.trace = sentBytes c.trace ++ c.state.sends ks := by
  have hwf : (c.emits [e]).Wf := ⟨h.buffer, h.channel⟩
  have hsent := calls_sent hwf hok
  rwa [emits_trace, sentBytes_append, he, append_nil, emits_state] at hsent

/-- The callback of a close finds the connection disconnected. -/
theorem handleClose_sent (h : c.Wf) {ks : List Call} (hok : c.handleClose ks = .ok c') :
    c'.Wf ∧ c'.state = .kDisconnected ∧ sentBytes c'.trace = sentBytes c.trace := by
  have hopen : c.state.isOpen = true := by
    by_contra hclosed
    rw [handleClose_of_not_open (by simpa using hclosed)] at hok
    cases hok
  have hcloses := (handleClose_spec h hopen ks).of_eq_ok hok
  refine ⟨hcloses.wf, hcloses.state, ?_⟩
  obtain ⟨ch, hch, -, htracked, -⟩ := Channel.setEvents_spec h.channel Channel.kNoneEvent
  have hnone : c.channel.disableAll = .ok ch := hch
  rw [handleClose, assert_bind_of hopen, bind_of_ok hnone] at hok
  obtain ⟨d, hd, hok⟩ := bind_eq_ok.mp hok
  cases hok
  have hwf : ({ c with state := .kDisconnected, channel := ch } : TcpConnection).Wf :=
    ⟨h.buffer, htracked.consistent⟩
  have hsent := callback_sent hwf (e := .connectionCallback .kDisconnected) rfl hd
  rw [sends_of_ne (by simp), append_nil] at hsent
  rw [emits_trace, sentBytes_append, hsent]
  exact append_nil _

theorem handleWrite_sent (h : c.Wf) {w : WriteResult} (hok : c.handleWrite w = .ok c') :
    sentBytes c'.trace = sentBytes c.trace := by
  obtain ⟨es, out, htrace, heffects, -⟩ := ((handleWrite_spec h w).of_eq_ok hok).trace
  rw [htrace, sentBytes_append, heffects.sent, append_nil]

/-- A read that returns data lets the message callback send. -/
theorem handleRead_sent (h : c.Wf) {n : ℤ} {ks ks' : List Call}
    (hok : c.handleRead n ks ks' = .ok c') : c'.Wf ∧
      sentBytes c'.trace = sentBytes c.trace ++ if 0 < n then c.state.sends ks else [] := by
  rw [handleRead] at hok
  split at hok
  next hpos =>
    rw [if_pos hpos]
    exact ⟨((messageCallback_spec h _).of_eq_ok hok).wf, callback_sent h rfl hok⟩
  next hpos =>
    rw [if_neg hpos, append_nil]
    split at hok
    next =>
      obtain ⟨hwf, -, hsent⟩ := handleClose_sent h hok
      exact ⟨hwf, hsent⟩
    next =>
      cases hok
      exact ⟨h, rfl⟩

/-- A dispatch lets a read send, unless a hang-up has closed the connection just before. -/
theorem handleEvent_sent (h : c.Wf) {revents : EventMask} {env : Env}
    (hok : c.handleEvent revents env = .ok c') : sentBytes c'.trace = sentBytes c.trace ++
      if hupCloses revents = false ∧ reads revents = true ∧ 0 < env.read then
        c.state.sends env.onMessage else [] := by
  rw [handleEvent_eq] at hok
  obtain ⟨d, hd, hok⟩ := bind_eq_ok.mp hok
  obtain ⟨e, he, hok⟩ := bind_eq_ok.mp hok
  -- the hang-up
  have hhup : d.Wf ∧ sentBytes d.trace = sentBytes c.trace ∧
      d.state = if hupCloses revents = false then c.state else .kDisconnected := by
    split at hd
    next hup =>
      obtain ⟨hwf, hstate, hsent⟩ := handleClose_sent h hd
      exact ⟨hwf, hsent, by rw [hstate, hup]; rfl⟩
    next hup =>
      cases hd
      exact ⟨h, rfl, (if_pos (by simpa using hup)).symm⟩
  obtain ⟨hwf, hsent, hstate⟩ := hhup
  -- the read
  have hread : e.Wf ∧ sentBytes e.trace = sentBytes d.trace ++
      if reads revents = true ∧ 0 < env.read then d.state.sends env.onMessage else [] := by
    split at he
    next hreads =>
      simp only [hreads, true_and]
      exact handleRead_sent hwf he
    next hreads =>
      cases he
      rw [if_neg fun hand ↦ hreads hand.1, append_nil]
      exact ⟨hwf, rfl⟩
  have hwrite : sentBytes c'.trace = sentBytes e.trace := by
    split at hok
    next => exact handleWrite_sent hread.1 hok
    next =>
      cases hok
      rfl
  rw [hwrite, hread.2, hsent, hstate]
  cases hupCloses revents <;> simp [StateE.sends]

end Sent

end TcpConnection

/-! ## Runs in the loop thread -/

namespace LoopState

/-- The action takes place in the thread of the loop, no direct write fails for good, and a dispatch
closes at most once. -/
def InLoopThread (s : LoopState) : Act → Prop
  | .call inLoop k => inLoop = true ∧ k.isFatal = false
  | .functor env => env.NonFatal
  | .event revents env => env.NonFatal ∧ s.conn.CloseOnce revents env.read
  | .timer => True
  | .connectEstablished env => env.NonFatal ∧ s.conn.state = .kConnecting
  | .connectDestroyed _ => False

/-- What an action gives to `send` while the connection is `kConnected`: by a call of its own, or by
those of the callback that it makes. The connection callback of a close finds it disconnected. -/
def sends (s : LoopState) : Act → Bytes
  | .call _ k => s.conn.state.sends [k]
  | .functor env =>
    match s.pending.head? with
    | some .writeComplete => s.conn.state.sends env.onWriteComplete
    | some (.highWaterMark _) => s.conn.state.sends env.onHighWaterMark
    | _ => []
  | .event revents env =>
    if hupCloses revents = false ∧ reads revents = true ∧ 0 < env.read then
      s.conn.state.sends env.onMessage else []
  | .connectEstablished env => StateE.kConnected.sends env.onConnection
  | .timer => []
  | .connectDestroyed _ => []

/-- What a run gives to `send` while the connection is `kConnected`, in order. -/
def sentIn (s : LoopState) : List Act → Bytes
  | [] => []
  | a :: acts => s.sends a ++
    match s.step a with
    | .ok s' => s'.sentIn acts
    | .error _ => []

/-- The stream invariant with the queue: it holds only functors queued in the loop thread. -/
structure Streams (s : LoopState) : Prop where
  conn : s.conn.Streaming
  pending : ∀ f ∈ s.pending, (Effect.queueInLoop f).isRemote = false

variable {s : LoopState}

theorem connStep_streaming (h : s.Streams) {a : Act} (ha : s.InLoopThread a) :
    Yields (s.connStep a) Streaming := by
  cases a with
  | call inLoop k =>
    obtain ⟨rfl, hk⟩ := ha
    exact h.conn.call hk
  | functor env =>
    cases hp : s.pending with
    | nil =>
      rw [connStep_functor_nil hp]
      exact yields_ok h.conn
    | cons f rest =>
      rw [connStep_functor_cons hp]
      exact h.conn.runFunctor ha (h.pending f (by rw [hp]; exact mem_cons_self))
  | event revents env => exact h.conn.handleEvent ha.1 ha.2
  | timer =>
    refine yields_pure ?_
    split
    · exact h.conn
    · exact (h.conn.call (k := .forceClose) rfl).of_eq_ok rfl
  | connectEstablished env => exact h.conn.connectEstablished ha.2 fun k hk ↦ ha.1 k (by simp [hk])
  | connectDestroyed env => exact ha.elim

theorem step_streams (h : s.Streams) {a : Act} (ha : s.InLoopThread a) :
    Yields (s.step a) Streams := by
  refine (step_yields (connStep_streaming h ha)).imp ?_
  rintro s' ⟨hconn, -, hpending⟩
  refine ⟨hconn, fun f hf ↦ ?_⟩
  rw [hpending, mem_append] at hf
  rcases hf with hf | hf
  · refine h.pending f ?_
    cases a with
    | functor env => exact mem_of_mem_tail hf
    | _ => exact hf
  · exact hconn.onLoop _ (mem_of_mem_drop (mem_queued.mp hf))

/-- **What one action sends.** -/
theorem connStep_sent (h : s.Streams) {a : Act} (ha : s.InLoopThread a) {c : TcpConnection}
    (hok : s.connStep a = .ok c) : sentBytes c.trace = sentBytes s.conn.trace ++ s.sends a := by
  have hwf := h.conn.wf
  cases a with
  | call inLoop k =>
    obtain ⟨rfl, -⟩ := ha
    exact (call_sent hwf hok).2
  | functor env =>
    cases hp : s.pending with
    | nil =>
      rw [connStep_functor_nil hp] at hok
      cases hok
      simp [sends, hp]
    | cons f rest =>
      rw [connStep_functor_cons hp] at hok
      have hf := h.pending f (by rw [hp]; exact mem_cons_self)
      simp only [sends, hp, head?_cons]
      cases f with
      | writeComplete => exact calls_sent hwf hok
      | highWaterMark len => exact calls_sent hwf hok
      | forceCloseInLoop =>
        rw [TcpConnection.runFunctor, forceCloseInLoop] at hok
        split at hok
        next => rw [(handleClose_sent hwf hok).2.2, append_nil]
        next =>
          cases hok
          rw [append_nil]
      | sendInLoop message => cases hf
      | shutdownInLoop => cases hf
      | startReadInLoop => cases hf
      | stopReadInLoop => cases hf
  | event revents env => exact handleEvent_sent hwf hok
  | timer =>
    cases hok
    rw [sends, append_nil]
    split
    next => rfl
    next =>
      have hsent := (call_sent hwf (k := .forceClose) rfl).2
      rwa [StateE.sends, takeWhile_cons_of_neg (by decide), flatMap_nil, ite_self,
        append_nil] at hsent
  | connectEstablished env =>
    obtain ⟨ch, heq, hl, -⟩ := connectEstablished_eq hwf ha.2 env.onConnection
    have hup : ({ s.conn with state := .kConnected, channel := ch } : TcpConnection).Wf :=
      ⟨hwf.buffer, hl.tracked.consistent⟩
    exact callback_sent hup rfl (heq.symm.trans hok)
  | connectDestroyed env => exact ha.elim

/-- **What a run sends.** -/
theorem runAll_sent (h : s.Streams) {acts : List Act} (hacts : Along step InLoopThread s acts)
    {s' : LoopState} (hrun : runAll step s acts = .ok s') :
    sentBytes s'.conn.trace = sentBytes s.conn.trace ++ s.sentIn acts := by
  induction acts generalizing s with
  | nil =>
    cases hrun
    exact (append_nil _).symm
  | cons a acts ih =>
    obtain ⟨t, ht, hrun⟩ := runAll_cons_eq_ok.mp hrun
    have hstep := connStep_sent h hacts.1 (step_eq_ok ht).1
    rw [ih ((step_streams h hacts.1).of_eq_ok ht) (hacts.2 t ht) hrun, hstep, sentIn, ht,
      append_assoc]

/-- **Output stream integrity.** In every run in the loop thread, no assertion fails; as long as the
connection is not disconnected, the bytes taken by the kernel followed by the content of
`outputBuffer_` are the messages given to `send` in `kConnected`, in order, and the channel waits
for `POLLOUT` exactly if `outputBuffer_` is not empty; and every half-close found it empty. -/
theorem output_stream_whole (poller : PollerKind) (wcc hcb : Bool) (mark : ℕ) (s : LoopState)
    (hs : new poller wcc hcb mark = .ok s) (acts : List Act)
    (hacts : Along step InLoopThread s acts) :
    Yields (runAll step s acts) fun s' ↦
      (s'.conn.state ≠ .kDisconnected →
        wroteBytes s'.conn.trace ++ s'.conn.outputBuffer.content = s.sentIn acts ∧
        (s'.conn.channel.isWriting = true ↔ s'.conn.outputBuffer.content ≠ [])) ∧
      ∀ unsent ∈ unsentAtShutdown s'.conn.trace, unsent = [] := by
  obtain ⟨s₀, hs₀, hwf, -, -, hchannel, hcontent, htrace, hpending, -⟩ :=
    new_spec poller wcc hcb mark
  obtain rfl : s₀ = s := Except.ok.inj (hs₀.symm.trans hs)
  have hstart : s₀.Streams := by
    refine ⟨⟨hwf, ?_, ?_, fun _ ↦ ?_, fun _ ↦ ?_⟩, ?_⟩
    · simp [htrace]
    · simp [htrace, unsentAtShutdown]
    · rw [htrace, hcontent]
      rfl
    · rw [hchannel, hcontent]
      exact iff_of_false (by cases poller <;> decide) (by simp)
    · simp [hpending]
  have hrun := yields_runAll (fun _ _ h ha ↦ step_streams h ha) hstart hacts
  refine hrun.imp_ok fun s' hs' h ↦ ⟨fun hne ↦ ⟨?_, h.conn.writing hne⟩, h.conn.unsent⟩
  rw [h.conn.whole hne, runAll_sent hstart hacts hs', htrace]
  rfl

/-- Two bytes of three are taken directly, then a half-close has to wait for a writable event. A
message after it is not taken. -/
def sendAndShutdown : List Act :=
  [.connectEstablished idleEnv, .call true (.send ⟨[5, 6, 7], by decide⟩ (.accepted 2)),
    .call true .shutdown, .call true (.send ⟨[4], by decide⟩ (.accepted 1)),
    .event EventMask.POLLOUT { idleEnv with write := .accepted 5 }]

theorem output_stream_whole_partial :
    ∃ s s', new .epoll true false 0 = .ok s ∧ runAll step s sendAndShutdown = .ok s' ∧
      s.sentIn sendAndShutdown = [5, 6, 7] ∧ unsentAtShutdown s'.conn.trace = [[]] ∧
      wroteBytes s'.conn.trace ++ s'.conn.outputBuffer.content = s.sentIn sendAndShutdown := by
  obtain ⟨s, hs, -, hstate, -⟩ := new_spec .epoll true false 0
  have hidle : idleEnv.NonFatal := by simp [Env.NonFatal, idleEnv]
  have hstream := output_stream_whole .epoll true false 0 s hs sendAndShutdown
    ⟨⟨hidle, hstate⟩, fun _ _ ↦ ⟨⟨rfl, rfl⟩, fun _ _ ↦ ⟨⟨rfl, rfl⟩, fun _ _ ↦ ⟨⟨rfl, rfl⟩,
      fun _ _ ↦ ⟨⟨hidle, Nat.zero_le _⟩, fun _ _ ↦ trivial⟩⟩⟩⟩⟩
  have hvalue : (new .epoll true false 0 >>= fun s ↦ (runAll step s sendAndShutdown).map fun s' ↦
      (s.sentIn sendAndShutdown, unsentAtShutdown s'.conn.trace, s'.conn.state)) =
        .ok ([5, 6, 7], [[]], .kDisconnecting) := by decide +kernel
  rw [bind_of_ok hs] at hvalue
  obtain ⟨s', hs', hobserved⟩ := map_eq_ok.mp hvalue
  rw [Prod.mk.injEq, Prod.mk.injEq] at hobserved
  obtain ⟨hsent, hunsent, hdisconnecting⟩ := hobserved
  refine ⟨s, s', hs, hs', hsent, hunsent, ((hstream.of_eq_ok hs').1 ?_).1⟩
  rw [hdisconnecting]
  decide

end LoopState

end Fishnet
