import Fishnet.Net.TcpConnection

/-!
# What the functions of a connection do

One specification for each function of `TcpConnection`, in the form `Yields`: no assertion fails,
and what the function leaves is related to what it found. Nearly all of them are *quiet*: they
neither close the connection nor call a callback that marks its life. The exceptions are
`connectEstablished`, `handleClose` and `connectDestroyed`.

A disconnected connection is *inert*: apart from `startRead` and `stopRead`, which do not look at
`state_`, no public operation changes anything.
-/

namespace Fishnet

open List EventMask Channel

namespace TcpConnection

open Effect

/-- The data structures a connection is made of are in order. -/
structure Wf (c : TcpConnection) : Prop where
  buffer : c.outputBuffer.Inv
  channel : c.channel.Consistent

theorem new_spec (poller : PollerKind) (wcc hcb : Bool) (mark : ℕ) :
    ∃ c, new poller wcc hcb mark = .ok c ∧ c.Wf ∧ c.state = .kConnecting ∧ c.reading = true ∧
      c.channel = Channel.new poller ∧ c.outputBuffer.content = [] ∧ c.trace = [] := by
  obtain ⟨b, hb, hinv, hnil⟩ := Buffer.new_spec (n := Buffer.kInitialSize) (by decide)
  exact ⟨_, bind_of_ok hb _, ⟨hinv, consistent_new poller⟩, rfl, rfl, rfl, hnil, rfl⟩

/-- What every function does that does not change the life of the connection. -/
structure Quiet (c c' : TcpConnection) : Prop where
  wf : c'.Wf
  state : c'.state = c.state ∨ c.state = .kConnected ∧ c'.state = .kDisconnecting
  trace : ∃ es, c'.trace = c.trace ++ es ∧ lifecycle es = []
  tracked : c.channel.Tracked → c'.channel.Tracked

namespace Quiet

variable {c c₁ c₂ : TcpConnection}

theorem refl (h : c.Wf) : Quiet c c := ⟨h, Or.inl rfl, ⟨[], (append_nil _).symm, rfl⟩, id⟩

theorem trans (h₁ : Quiet c c₁) (h₂ : Quiet c₁ c₂) : Quiet c c₂ := by
  refine ⟨h₂.wf, ?_, ?_, fun h ↦ h₂.tracked (h₁.tracked h)⟩
  · rcases h₁.state with e₁ | ⟨e₁, d₁⟩ <;> rcases h₂.state with e₂ | ⟨e₂, d₂⟩
    · exact Or.inl (e₂.trans e₁)
    · exact Or.inr ⟨e₁ ▸ e₂, d₂⟩
    · exact Or.inr ⟨e₁, e₂.trans d₁⟩
    · exact Or.inr ⟨e₁, d₂⟩
  · obtain ⟨es, hes, hq⟩ := h₁.trace
    obtain ⟨fs, hfs, hr⟩ := h₂.trace
    exact ⟨es ++ fs, by rw [hfs, hes, append_assoc], by rw [lifecycle_append, hq, hr]; rfl⟩

theorem emits (h : c.Wf) {es : List Effect} (hes : lifecycle es = []) : Quiet c (c.emits es) :=
  ⟨⟨h.buffer, h.channel⟩, Or.inl rfl, ⟨es, rfl, hes⟩, id⟩

theorem isOpen (h : Quiet c c₁) : c₁.state.isOpen = c.state.isOpen := by
  rcases h.state with e | ⟨e, e'⟩
  · rw [e]
  · rw [e, e']
    rfl

theorem disconnected_iff (h : Quiet c c₁) :
    c₁.state = .kDisconnected ↔ c.state = .kDisconnected := by
  rcases h.state with e | ⟨e, e'⟩
  · rw [e]
  · rw [e, e']
    decide

theorem connecting_iff (h : Quiet c c₁) : c₁.state = .kConnecting ↔ c.state = .kConnecting := by
  rcases h.state with e | ⟨e, e'⟩
  · rw [e]
  · rw [e, e']
    decide

theorem lifecycle_eq (h : Quiet c c₁) : lifecycle c₁.trace = lifecycle c.trace := by
  obtain ⟨es, hes, hq⟩ := h.trace
  rw [hes, lifecycle_append, hq, append_nil]

end Quiet

/-- No `startRead` or `stopRead` has been queued. -/
def NoRead (c : TcpConnection) : Prop := ∀ f, .queueInLoop f ∈ c.trace → f.isReadControl = false

/-- What a connection does between `connectEstablished` and `handleClose`. -/
structure Busy (c c' : TcpConnection) : Prop where
  quiet : Quiet c c'
  listening : c.channel.Listening → c'.channel.Listening
  noRead : c.NoRead → c'.NoRead

variable {c c₁ c₂ : TcpConnection}

theorem Busy.refl (h : c.Wf) : Busy c c := ⟨Quiet.refl h, id, id⟩

theorem Busy.trans (h₁ : Busy c c₁) (h₂ : Busy c₁ c₂) : Busy c c₂ :=
  ⟨h₁.quiet.trans h₂.quiet, fun h ↦ h₂.listening (h₁.listening h), fun h ↦ h₂.noRead (h₁.noRead h)⟩

theorem NoRead.append {es : List Effect} (h : c.NoRead) (htrace : c₁.trace = c.trace ++ es)
    (hes : ∀ f, .queueInLoop f ∈ es → f.isReadControl = false) : c₁.NoRead := by
  intro f hf
  rw [htrace, mem_append] at hf
  exact hf.elim (h f) (hes f)

/-- What is queued in the loop thread does not control reading. -/
theorem isReadControl_of_not_isRemote {es : List Effect} (h : ∀ e ∈ es, e.isRemote = false)
    (f : Functor) (hf : .queueInLoop f ∈ es) : f.isReadControl = false := by
  have hlocal := h _ hf
  cases f with
  | startReadInLoop => cases hlocal
  | stopReadInLoop => cases hlocal
  | _ => rfl

theorem Busy.of_emits (h : c.Wf) {e : Effect} (hlife : e.isLifecycle = false)
    (hread : ∀ f, e = .queueInLoop f → f.isReadControl = false) : Busy c (c.emits [e]) := by
  refine ⟨Quiet.emits h ?_, id, fun hn ↦ hn.append rfl fun f hf ↦ ?_⟩
  · rw [lifecycle, filter_cons, hlife]
    rfl
  · exact hread f (mem_singleton.mp hf).symm

/-! ## Sending -/

/-- The trace of a step that handed `data` to the kernel: if it half-closed, nothing was left to
send. -/
structure DrainEffects (es : List Effect) (data : Bytes) : Prop where
  wrote : wroteBytes es = data
  sent : sentBytes es = []
  unsent : ∀ unsent ∈ unsentAtShutdown es, unsent = []
  onLoop : ∀ e ∈ es, e.isRemote = false
  quiet : lifecycle es = []

theorem DrainEffects.append {es fs : List Effect} {d e : Bytes} (h : DrainEffects es d)
    (h' : DrainEffects fs e) : DrainEffects (es ++ fs) (d ++ e) := by
  refine ⟨?_, ?_, fun u hu ↦ ?_, fun e he ↦ ?_, ?_⟩
  · rw [wroteBytes_append, h.wrote, h'.wrote]
  · rw [sentBytes_append, h.sent, h'.sent]
    rfl
  · rw [unsentAtShutdown_append] at hu
    exact (mem_append.mp hu).elim (h.unsent u) (h'.unsent u)
  · exact (mem_append.mp he).elim (h.onLoop e) (h'.onLoop e)
  · rw [lifecycle_append, h.quiet, h'.quiet]
    rfl

theorem DrainEffects.nil : DrainEffects [] [] :=
  ⟨rfl, rfl, by simp [unsentAtShutdown], by simp, rfl⟩

/-- The trace of a step that did not half-close. -/
structure WriteEffects (es : List Effect) (data : Bytes) : Prop extends DrainEffects es data where
  noShutdown : unsentAtShutdown es = []

theorem WriteEffects.append {es fs : List Effect} {d e : Bytes} (h : WriteEffects es d)
    (h' : WriteEffects fs e) : WriteEffects (es ++ fs) (d ++ e) := by
  refine ⟨h.toDrainEffects.append h'.toDrainEffects, ?_⟩
  rw [unsentAtShutdown_append, h.noShutdown, h'.noShutdown]
  rfl

theorem WriteEffects.nil : WriteEffects [] [] := ⟨.nil, rfl⟩

theorem wrote_writeEffects (out : Bytes) : WriteEffects [.wrote out] out :=
  ⟨⟨append_nil _, rfl, by simp [unsentAtShutdown], by simp [isRemote], rfl⟩, rfl⟩

theorem WriteEffects.single {e : Effect} (h1 : wroteBytes [e] = []) (h2 : sentBytes [e] = [])
    (h3 : unsentAtShutdown [e] = []) (h4 : e.isRemote = false) (h5 : lifecycle [e] = []) :
    WriteEffects [e] [] := ⟨⟨h1, h2, by simp [h3], by simpa using h4, h5⟩, h3⟩

/-- The direct write hands a prefix of the data to the kernel, and only if nothing was waiting. -/
theorem directWrite_spec (h : c.Wf) {data : Bytes} (hlen : data.length < sizeBound)
    (w : WriteResult) :
    ∃ es n faultError, c.directWrite data w = ⟨c.emits es, n, data.length - n, faultError⟩ ∧
      n ≤ data.length ∧ WriteEffects es (data.take n) ∧ (c.outputBuffer.content = [] ∨ n = 0) ∧
      (w.isFatal = false → faultError = false) := by
  unfold directWrite
  split
  next hidle =>
    rw [Bool.and_eq_true, beq_iff_eq] at hidle
    have hempty : c.outputBuffer.content = [] := h.buffer.content_eq_nil_iff.mpr hidle.2
    cases w with
    | error errno =>
      exact ⟨[], 0, _, by rw [emits_nil]; rfl, Nat.zero_le _, WriteEffects.nil, Or.inl hempty, id⟩
    | accepted k =>
      have hn : min k data.length ≤ data.length := min_le_right _ _
      have hsub : sizeSub data.length (min k data.length) = data.length - min k data.length :=
        sizeSub_of_bounded hn hlen
      have hwrote := wrote_writeEffects (data.take (min k data.length))
      simp only [hsub]
      split
      · have hdone : WriteEffects [.queueInLoop .writeComplete] [] :=
          WriteEffects.single rfl rfl rfl rfl rfl
        refine ⟨_, _, false, by rw [emits_emits], hn, ?_, Or.inl hempty, fun _ ↦ rfl⟩
        simpa using hwrote.append hdone
      · exact ⟨_, _, false, rfl, hn, hwrote, Or.inl hempty, fun _ ↦ rfl⟩
  next =>
    exact ⟨[], 0, _, by rw [emits_nil]; rfl, Nat.zero_le _, WriteEffects.nil, Or.inr rfl,
      fun _ ↦ rfl⟩

/-- What `sendInLoop` does with `data` on a connection that is not disconnected. -/
structure Sends (c c' : TcpConnection) (data : Bytes) (w : WriteResult) : Prop where
  wf : c'.Wf
  state : c'.state = c.state
  tracked : c.channel.Tracked → c'.channel.Tracked
  listening : c.channel.Listening → c'.channel.Listening
  trace : ∃ es out, c'.trace = c.trace ++ es ∧ WriteEffects es out ∧
    (w.isFatal = false → out ++ c'.outputBuffer.content = c.outputBuffer.content ++ data)
  writing : w.isFatal = false → (c.channel.isWriting = true ↔ c.outputBuffer.content ≠ []) →
    (c'.channel.isWriting = true ↔ c'.outputBuffer.content ≠ [])

theorem Sends.busy {data : Bytes} {w : WriteResult} (h : Sends c c₁ data w) : Busy c c₁ := by
  obtain ⟨es, _, htrace, heffects, -⟩ := h.trace
  exact ⟨⟨h.wf, Or.inl h.state, ⟨es, htrace, heffects.quiet⟩, h.tracked⟩, h.listening, fun hn ↦
    hn.append htrace (isReadControl_of_not_isRemote heffects.onLoop)⟩

/-- What keeping `rest` adds to the trace: a note if the high water mark is reached. -/
def bufferEffects (c : TcpConnection) (rest : Bytes) : List Effect :=
  let oldLen := c.outputBuffer.readableBytes
  let newLen := sizeAdd oldLen rest.length
  if decide (c.highWaterMark ≤ newLen) && decide (oldLen < c.highWaterMark) &&
    c.highWaterMarkCallback then [.queueInLoop (.highWaterMark newLen)] else []

theorem bufferRest_eq (c : TcpConnection) (rest : Bytes) : c.bufferRest rest = (do
    let outputBuffer ← c.outputBuffer.append rest
    let channel ← if c.channel.isWriting then pure c.channel else c.channel.enableWriting
    pure { c.emits (c.bufferEffects rest) with
      outputBuffer := outputBuffer, channel := channel }) := by
  unfold bufferRest bufferEffects
  dsimp only
  split
  · rfl
  · rw [emits_nil]

theorem bufferEffects_writeEffects (c : TcpConnection) (rest : Bytes) :
    WriteEffects (c.bufferEffects rest) [] := by
  unfold bufferEffects
  dsimp only
  split
  · exact WriteEffects.single rfl rfl rfl rfl rfl
  · exact WriteEffects.nil

/-- Bytes that are kept go to the end of `outputBuffer_`, and the channel waits for `POLLOUT`. -/
theorem bufferRest_spec (h : c.Wf) {rest : Bytes} (hlen : rest.length < sizeBound) :
    Yields (c.bufferRest rest) fun c' ↦ c'.Wf ∧ c'.state = c.state ∧
      (c.channel.Tracked → c'.channel.Tracked) ∧
      (c.channel.Listening → c'.channel.Listening) ∧
      (∃ es, c'.trace = c.trace ++ es ∧ WriteEffects es []) ∧
      c'.outputBuffer.content = c.outputBuffer.content ++ rest ∧ c'.channel.isWriting = true := by
  have heffects := bufferEffects_writeEffects c rest
  rw [bufferRest_eq]
  rcases Buffer.append_spec h.buffer hlen with ⟨b, hb, hinv, hcont, -⟩ | ⟨herr, -⟩
  · rw [bind_of_ok hb]
    by_cases hw : c.channel.isWriting = true
    · rw [if_pos hw]
      exact yields_pure ⟨⟨hinv, h.channel⟩, rfl, id, id, ⟨_, rfl, heffects⟩, hcont, hw⟩
    · rw [if_neg hw]
      obtain ⟨ch, hch, hevents, htracked, -⟩ :=
        setEvents_spec h.channel (c.channel.events ||| Channel.kWriteEvent)
      rw [Channel.enableWriting, bind_of_ok hch]
      refine yields_pure ⟨⟨hinv, htracked.consistent⟩, rfl, fun _ ↦ htracked, fun hl ↦ ?_,
        ⟨_, rfl, heffects⟩, hcont, ?_⟩
      · refine (h.channel.listening ?_ hch).1
        rw [or_has_of_disjoint (by decide)]
        exact hl.2.2
      · rw [Channel.isWriting, hevents]
        exact or_has_self (by decide) _
  · rw [herr]
    exact Or.inr rfl

theorem sendInLoop_of_disconnected (hc : c.state = .kDisconnected) (data : Bytes)
    (w : WriteResult) : c.sendInLoop data w = .ok c := by
  rw [sendInLoop, if_pos hc]
  rfl

theorem sendInLoop_spec (h : c.Wf) (hc : c.state ≠ .kDisconnected) {data : Bytes}
    (hlen : data.length < sizeBound) (w : WriteResult) :
    Yields (c.sendInLoop data w) fun c' ↦ Sends c c' data w := by
  obtain ⟨es, n, faultError, hdirect, hn, heffects, hidle, hfault⟩ := directWrite_spec h hlen w
  have hwf : (c.emits es).Wf := ⟨h.buffer, h.channel⟩
  have hsplit : data.take n ++ (c.outputBuffer.content ++ data.drop n)
      = c.outputBuffer.content ++ data := by
    rcases hidle with hnil | rfl
    · rw [hnil, nil_append, nil_append, take_append_drop]
    · rfl
  rw [sendInLoop, if_neg hc, hdirect]
  refine yields_assert_bind (Nat.sub_le _ _) ?_
  split
  next hrest =>
    have hdrop : (data.drop n).length < sizeBound := by
      rw [length_drop]
      omega
    refine (bufferRest_spec hwf hdrop).imp ?_
    rintro c' ⟨hwf', hstate, htracked, hlistening, ⟨fs, htrace, hfs⟩, hcont, hwriting⟩
    refine ⟨hwf', hstate, htracked, hlistening, ⟨es ++ fs, data.take n, ?_, ?_, fun _ ↦ ?_⟩,
      fun _ _ ↦ ?_⟩
    · rw [htrace, emits_trace, append_assoc]
    · simpa using heffects.append hfs
    · rw [hcont, emits_outputBuffer, hsplit]
    · rw [hwriting, hcont, ← length_pos_iff, length_append, length_drop]
      simp only [Bool.and_eq_true, decide_eq_true_eq] at hrest
      simp only [true_iff]
      omega
  next hrest =>
    refine yields_pure ⟨hwf, rfl, id, id, ⟨es, data.take n, rfl, heffects, fun hw ↦ ?_⟩, fun _ ↦ id⟩
    -- nothing is left: the kernel took all of `data`
    simp only [hfault hw, Bool.not_false, Bool.true_and, decide_eq_true_eq] at hrest
    have hall : data.drop n = [] := drop_of_length_le (by omega)
    rw [hall, append_nil] at hsplit
    rw [emits_outputBuffer, hsplit]

/-! ## Calls -/

/-- What `startReadInLoop` and `stopReadInLoop` do. The channel goes on to wait for `POLLOUT`. -/
structure Rereads (c c' : TcpConnection) : Prop where
  eq : ∃ channel reading, c' = { c with channel := channel, reading := reading }
  consistent : c'.channel.Consistent
  tracked : c.channel.Tracked → c'.channel.Tracked
  writing : c'.channel.isWriting = c.channel.isWriting

theorem Rereads.refl (h : c.Wf) : Rereads c c := ⟨⟨_, _, rfl⟩, h.channel, id, rfl⟩

theorem Rereads.quiet (hr : Rereads c c₁) (h : c.Wf) : Quiet c c₁ := by
  obtain ⟨channel, reading, rfl⟩ := hr.eq
  exact ⟨⟨h.buffer, hr.consistent⟩, Or.inl rfl, ⟨[], (append_nil _).symm, rfl⟩, hr.tracked⟩

section

variable (h : c.Wf)
include h

theorem startReadInLoop_ok : ∃ c', c.startReadInLoop = .ok c' ∧ Rereads c c' := by
  obtain ⟨ch, hch, hevents, htracked, -⟩ :=
    setEvents_spec h.channel (c.channel.events ||| Channel.kReadEvent)
  rw [startReadInLoop, Channel.enableReading, bind_of_ok hch]
  split
  · refine ⟨_, rfl, ⟨_, _, rfl⟩, htracked.consistent, fun _ ↦ htracked, ?_⟩
    rw [Channel.isWriting, hevents]
    exact or_has_of_disjoint (by decide) _
  · exact ⟨_, rfl, Rereads.refl h⟩

theorem stopReadInLoop_ok : ∃ c', c.stopReadInLoop = .ok c' ∧ Rereads c c' ∧
    (c.channel.Removable → c'.channel.Removable) := by
  obtain ⟨ch, hch, hevents, htracked, hremovable⟩ :=
    setEvents_spec h.channel (c.channel.events &&& ~~~Channel.kReadEvent)
  rw [stopReadInLoop, Channel.disableReading, bind_of_ok hch]
  split
  · refine ⟨_, rfl, ⟨⟨_, _, rfl⟩, htracked.consistent, fun _ ↦ htracked, ?_⟩, fun hr ↦ ?_⟩
    · rw [Channel.isWriting, hevents]
      exact and_not_has_of_disjoint (by decide) _
    · refine hremovable hr.2.1 ?_
      rw [hr.1]
      decide
  · exact ⟨_, rfl, Rereads.refl h, id⟩

theorem startReadInLoop_spec : Yields c.startReadInLoop (Rereads c) :=
  Or.inl (startReadInLoop_ok h)

theorem stopReadInLoop_spec : Yields c.stopReadInLoop (Rereads c) := by
  obtain ⟨c', hc', hr, -⟩ := stopReadInLoop_ok h
  exact Or.inl ⟨c', hc', hr⟩

theorem shutdownInLoop_busy : Busy c c.shutdownInLoop := by
  rw [shutdownInLoop]
  split
  · exact Busy.refl h
  · exact Busy.of_emits h rfl fun f hf ↦ by cases hf

/-- Leaving `kConnected` for `kDisconnecting` is quiet; so is setting `kDisconnecting` again. -/
theorem Quiet.disconnecting (hopen : c.state.isOpen = true) :
    Quiet c { c with state := .kDisconnecting } := by
  refine ⟨⟨h.buffer, h.channel⟩, ?_, ⟨[], (append_nil _).symm, rfl⟩, id⟩
  cases hs : c.state with
  | kConnected => exact Or.inr ⟨rfl, rfl⟩
  | kDisconnecting => exact Or.inl rfl
  | kDisconnected =>
    rw [hs] at hopen
    cases hopen
  | kConnecting =>
    rw [hs] at hopen
    cases hopen

theorem Busy.disconnecting (hopen : c.state.isOpen = true) :
    Busy c { c with state := .kDisconnecting } :=
  ⟨Quiet.disconnecting h hopen, id, id⟩

theorem send_busy (inLoop : Bool) (message : Message) (w : WriteResult) :
    Yields (c.send inLoop message w) (Busy c) := by
  rw [send]
  split
  next hc =>
    have hsent : Busy c (c.emits [.sent message.1]) := Busy.of_emits h rfl fun f hf ↦ by cases hf
    split
    · have hc' : (c.emits [.sent message.1]).state ≠ .kDisconnected := by
        rw [emits_state, hc]
        decide
      exact (sendInLoop_spec hsent.quiet.wf hc' message.2 w).imp fun _ hs ↦ hsent.trans hs.busy
    · refine yields_pure (hsent.trans (Busy.of_emits hsent.quiet.wf rfl fun f hf ↦ ?_))
      cases hf
      rfl
  next => exact yields_pure (Busy.refl h)

end

/-- `send(Buffer*)` does to the connection what `send` does with the readable bytes, and empties the
buffer exactly when the message was taken. -/
theorem sendBuffer_eq (inLoop : Bool) (buf : ValidBuffer) (w : WriteResult) :
    Prod.fst <$> c.sendBuffer inLoop buf w = c.send inLoop buf.message w := by
  rw [sendBuffer, send]
  split
  next hc =>
    cases inLoop with
    | true =>
      change Prod.fst <$> ((c.emits [.sent buf.1.content]).sendInLoop buf.1.content w >>= _) = _
      change _ = (c.emits [.sent buf.1.content]).sendInLoop buf.1.content w
      cases (c.emits [.sent buf.1.content]).sendInLoop buf.1.content w <;> rfl
    | false =>
      obtain ⟨b, hb, -⟩ := Buffer.retrieveAsString_spec buf.2 (le_refl _)
      change Prod.fst <$> (buf.1.retrieveAsString buf.1.readableBytes >>= _) = _
      rw [hb]
      rfl
  next => rfl

theorem call_busy (h : c.Wf) (inLoop : Bool) {k : Call} (hk : k.isReadControl = false) :
    Yields (c.call inLoop k) (Busy c) := by
  cases k with
  | send message w => exact send_busy h inLoop message w
  | sendBuffer buf w =>
    rw [call, sendBuffer_eq]
    exact send_busy h inLoop buf.message w
  | shutdown =>
    refine yields_pure ?_
    rw [shutdown]
    split
    next hc =>
      have hb := Busy.disconnecting h (by rw [hc]; rfl)
      split
      · exact hb.trans (shutdownInLoop_busy hb.quiet.wf)
      · refine hb.trans (Busy.of_emits hb.quiet.wf rfl fun f hf ↦ ?_)
        cases hf
        rfl
    next => exact Busy.refl h
  | forceClose =>
    refine yields_pure ?_
    rw [forceClose]
    split
    next hc =>
      refine (Busy.disconnecting h hc).trans (Busy.of_emits (Quiet.disconnecting h hc).wf rfl ?_)
      rintro f hf
      cases hf
      rfl
    next => exact Busy.refl h
  | forceCloseWithDelay =>
    refine yields_pure ?_
    rw [forceCloseWithDelay]
    split
    next hc =>
      refine (Busy.disconnecting h hc).trans (Busy.of_emits (Quiet.disconnecting h hc).wf rfl ?_)
      rintro f hf
      cases hf
    next => exact Busy.refl h
  | startRead => cases hk
  | stopRead => cases hk

theorem calls_busy (h : c.Wf) {ks : List Call} (hks : ∀ k ∈ ks, k.isReadControl = false) :
    Yields (c.calls ks) (Busy c) := by
  refine yields_runAll (I := Busy c) (P := fun _ k ↦ k.isReadControl = false) ?_ (Busy.refl h)
    (along_of_forall fun _ ↦ hks)
  intro d k hb hk
  exact (call_busy hb.quiet.wf true hk).imp fun _ ↦ hb.trans

/-- Every public operation is quiet, whichever thread calls it. -/
theorem call_spec (h : c.Wf) (inLoop : Bool) (k : Call) : Yields (c.call inLoop k) (Quiet c) := by
  cases k with
  | startRead =>
    rw [call, startRead]
    split
    · exact (startReadInLoop_spec h).imp fun _ hr ↦ hr.quiet h
    · exact yields_pure (Quiet.emits h rfl)
  | stopRead =>
    rw [call, stopRead]
    split
    · exact (stopReadInLoop_spec h).imp fun _ hr ↦ hr.quiet h
    · exact yields_pure (Quiet.emits h rfl)
  | _ => exact (call_busy h inLoop rfl).imp fun _ ↦ Busy.quiet

theorem calls_spec (h : c.Wf) (ks : List Call) : Yields (c.calls ks) (Quiet c) := by
  refine yields_runAll (I := Quiet c) (P := fun _ _ ↦ True) ?_ (Quiet.refl h)
    (along_of_forall fun _ _ _ ↦ trivial)
  intro d k hq _
  exact (call_spec hq.wf true k).imp fun _ ↦ hq.trans

/-- A connection that is not open ignores every call that does not control reading. -/
theorem call_of_not_open (hc : c.state.isOpen = false) (inLoop : Bool) {k : Call}
    (hk : k.isReadControl = false) : c.call inLoop k = .ok c := by
  have h1 : c.state ≠ .kConnected := by
    intro h
    rw [h] at hc
    cases hc
  have h2 : ¬c.state.isOpen = true := by
    rw [hc]
    decide
  cases k with
  | send message w => exact if_neg h1
  | sendBuffer buf w =>
    rw [call, sendBuffer_eq]
    exact if_neg h1
  | shutdown => exact congrArg _ (if_neg h1)
  | forceClose => exact congrArg _ (if_neg h2)
  | forceCloseWithDelay => exact congrArg _ (if_neg h2)
  | startRead => cases hk
  | stopRead => cases hk

theorem call_of_disconnected (hc : c.state = .kDisconnected) (inLoop : Bool) {k : Call}
    (hk : k.isReadControl = false) : c.call inLoop k = .ok c :=
  call_of_not_open (by rw [hc]; rfl) inLoop hk

theorem calls_of_disconnected (hc : c.state = .kDisconnected) {ks : List Call}
    (hks : ∀ k ∈ ks, k.isReadControl = false) : c.calls ks = .ok c := by
  induction ks with
  | nil => rfl
  | cons k ks ih =>
    rw [calls, runAll, call_of_disconnected hc true (hks k mem_cons_self)]
    exact ih fun k hk ↦ hks k (mem_cons_of_mem _ hk)

/-! ## Writable events -/

theorem DrainEffects.shutdown : DrainEffects [.shutdownWrite []] [] :=
  ⟨rfl, rfl, by simp [unsentAtShutdown], by simp [isRemote], rfl⟩

/-- What `handleWrite` does. -/
structure Drains (c c' : TcpConnection) : Prop where
  wf : c'.Wf
  state : c'.state = c.state
  tracked : c.channel.Tracked → c'.channel.Tracked
  listening : c.channel.Listening → c'.channel.Listening
  trace : ∃ es out, c'.trace = c.trace ++ es ∧ DrainEffects es out ∧
    out ++ c'.outputBuffer.content = c.outputBuffer.content
  writing : (c.channel.isWriting = true ↔ c.outputBuffer.content ≠ []) →
    (c'.channel.isWriting = true ↔ c'.outputBuffer.content ≠ [])

theorem Drains.refl (h : c.Wf) : Drains c c :=
  ⟨h, rfl, id, id, ⟨[], [], (append_nil _).symm, DrainEffects.nil, rfl⟩, id⟩

theorem Drains.busy (h : Drains c c₁) : Busy c c₁ := by
  obtain ⟨es, _, htrace, heffects, -⟩ := h.trace
  exact ⟨⟨h.wf, Or.inl h.state, ⟨es, htrace, heffects.quiet⟩, h.tracked⟩, h.listening, fun hn ↦
    hn.append htrace (isReadControl_of_not_isRemote heffects.onLoop)⟩

/-- What `handleWrite` adds to the trace once `outputBuffer_` is empty: a half-close that `shutdown`
put off takes place then. -/
def doneEffects (c : TcpConnection) : List Effect :=
  (if c.writeCompleteCallback then [.queueInLoop .writeComplete] else []) ++
    if c.state = .kDisconnecting then [.shutdownWrite c.outputBuffer.content] else []

theorem writeDone_eq {ch : Channel} (hch : c.channel.disableWriting = .ok ch)
    (hidle : ch.isWriting = false) :
    c.writeDone = .ok ({ c with channel := ch }.emits c.doneEffects) := by
  set d : TcpConnection := { c with channel := ch }
  set es : List Effect := if c.writeCompleteCallback then [.queueInLoop .writeComplete] else []
    with hes
  have hqueue : (if d.writeCompleteCallback then d.emits [.queueInLoop .writeComplete] else d) =
      d.emits es := by
    rw [hes]
    split
    · rfl
    · rw [emits_nil]
  have hdone : c.writeDone = .ok (if (d.emits es).state = .kDisconnecting then
      (d.emits es).shutdownInLoop else d.emits es) := by
    rw [writeDone, bind_of_ok hch, ← hqueue]
    rfl
  rw [hdone, doneEffects]
  change Except.ok (if c.state = .kDisconnecting then _ else _) = _
  split
  · rw [shutdownInLoop, emits_channel, hidle, emits_emits, emits_outputBuffer]
    rfl
  · rw [append_nil]

theorem doneEffects_drainEffects (hnil : c.outputBuffer.content = []) :
    DrainEffects c.doneEffects [] := by
  rw [doneEffects, hnil]
  refine DrainEffects.append (d := []) ?_ ?_ <;> split
  · exact (WriteEffects.single rfl rfl rfl rfl rfl).toDrainEffects
  · exact DrainEffects.nil
  · exact DrainEffects.shutdown
  · exact DrainEffects.nil

/-- Writing can be disabled, and the channel is idle then. -/
theorem Wf.disableWriting (h : c.Wf) :
    ∃ ch, c.channel.disableWriting = .ok ch ∧ ch.isWriting = false ∧ ch.Tracked ∧
      (c.channel.Listening → ch.Listening) := by
  obtain ⟨ch, hch, hevents, htracked, -⟩ :=
    setEvents_spec h.channel (c.channel.events &&& ~~~Channel.kWriteEvent)
  refine ⟨ch, hch, ?_, htracked, ?_⟩
  · rw [Channel.isWriting, hevents]
    exact and_not_has_self _ _
  · intro hl
    refine (h.channel.listening ?_ hch).1
    rw [and_not_has_of_disjoint (by decide)]
    exact hl.2.2

theorem writeDone_spec (h : c.Wf) (hnil : c.outputBuffer.content = []) :
    Yields c.writeDone fun c' ↦
      Drains c c' ∧ c'.channel.isWriting = false ∧ c'.outputBuffer.content = [] := by
  obtain ⟨ch, hch, hidle, htracked, hlistening⟩ := h.disableWriting
  rw [writeDone_eq hch hidle]
  refine yields_ok ⟨⟨⟨h.buffer, htracked.consistent⟩, rfl, fun _ ↦ htracked, hlistening, ?_, ?_⟩,
    hidle, hnil⟩
  · exact ⟨_, [], rfl, doneEffects_drainEffects hnil, rfl⟩
  · exact fun _ ↦ iff_of_false (by rw [emits_channel, hidle]; decide) (not_not.mpr hnil)

theorem handleWrite_of_not_writing (hc : c.channel.isWriting = false) (w : WriteResult) :
    c.handleWrite w = .ok c := by
  rw [handleWrite.eq_def, if_neg (by rw [hc]; decide)]
  rfl

/-- The connection once the kernel has taken `out`, with `b` left to write. -/
def written (c : TcpConnection) (out : Bytes) (b : Buffer) : TcpConnection :=
  { c.emits [.wrote out] with outputBuffer := b }

/-- What an answer of the kernel makes of a connection: nothing changes, a part of `outputBuffer_`
is written, or all of it. -/
inductive HandleWriteCase (c : TcpConnection) : WriteResult → TcpConnection → Prop
  | nothing {w : WriteResult} (h : c.channel.isWriting = true → ∀ k, w = .accepted k →
      min k c.outputBuffer.readableBytes = 0) : HandleWriteCase c w c
  | part {k : ℕ} {b : Buffer} (hwriting : c.channel.isWriting = true)
      (hlt : k < c.outputBuffer.readableBytes) (hinv : b.Inv)
      (hcont : b.content = c.outputBuffer.content.drop k) (hleft : b.content ≠ []) :
      HandleWriteCase c (.accepted k) (c.written (c.outputBuffer.content.take k) b)
  | all {k : ℕ} {b : Buffer} {c' : TcpConnection} (hwriting : c.channel.isWriting = true)
      (hpos : 0 < c.outputBuffer.readableBytes) (hle : c.outputBuffer.readableBytes ≤ k)
      (hinv : b.Inv) (hnil : b.content = [])
      (hdone : (c.written c.outputBuffer.content b).writeDone = .ok c') :
      HandleWriteCase c (.accepted k) c'

theorem handleWrite_accepted (hwriting : c.channel.isWriting = true) (k : ℕ) :
    c.handleWrite (.accepted k) = if 0 < min k c.outputBuffer.readableBytes then
      c.outputBuffer.retrieve (min k c.outputBuffer.readableBytes) >>= fun b ↦
        if b.readableBytes = 0 then
          (c.written (c.outputBuffer.content.take (min k c.outputBuffer.readableBytes)) b).writeDone
        else .ok (c.written (c.outputBuffer.content.take (min k c.outputBuffer.readableBytes)) b)
    else .ok c := by
  rw [handleWrite.eq_def, if_pos hwriting]
  rfl

/-- `handleWrite` goes through, whatever the kernel answers. -/
theorem handleWrite_case (h : c.Wf) (w : WriteResult) :
    ∃ c', c.handleWrite w = .ok c' ∧ HandleWriteCase c w c' := by
  by_cases hwriting : c.channel.isWriting = true
  swap
  · refine ⟨c, handleWrite_of_not_writing (Bool.eq_false_of_not_eq_true hwriting) w, .nothing ?_⟩
    exact fun hw ↦ absurd hw hwriting
  cases w with
  | error errno =>
    refine ⟨c, ?_, .nothing fun _ k hk ↦ by cases hk⟩
    rw [handleWrite.eq_def, if_pos hwriting]
    rfl
  | accepted k =>
    rw [handleWrite_accepted hwriting]
    by_cases hpos : 0 < min k c.outputBuffer.readableBytes
    swap
    · refine ⟨c, if_neg hpos, .nothing fun _ k' hk' ↦ ?_⟩
      cases hk'
      omega
    obtain ⟨b, hb, hinv, hcont⟩ := Buffer.retrieve_spec h.buffer
      (show min k c.outputBuffer.readableBytes ≤ _ from min_le_right _ _)
    rw [if_pos hpos, bind_of_ok hb]
    have hlength := h.buffer.length_content
    by_cases hlt : k < c.outputBuffer.readableBytes
    · rw [min_eq_left hlt.le] at hcont ⊢
      have hleft : b.content ≠ [] := by
        rw [hcont, Ne, drop_eq_nil_iff]
        omega
      rw [if_neg (mt hinv.content_eq_nil_iff.mpr hleft)]
      exact ⟨_, rfl, .part hwriting hlt hinv hcont hleft⟩
    · have hle : c.outputBuffer.readableBytes ≤ k := not_lt.mp hlt
      rw [min_eq_right hle] at hpos hcont ⊢
      -- nothing is left, and all of the content was written
      have hnil : b.content = [] := by
        rw [hcont, drop_eq_nil_iff]
        exact hlength.le
      rw [if_pos (hinv.content_eq_nil_iff.mp hnil), take_of_length_le hlength.le]
      have hwf : (c.written c.outputBuffer.content b).Wf := ⟨hinv, h.channel⟩
      obtain ⟨ch, hch, hidle, -⟩ := hwf.disableWriting
      have hdone := writeDone_eq hch hidle
      exact ⟨_, hdone, .all hwriting hpos hle hinv hnil hdone⟩

theorem handleWrite_spec (h : c.Wf) (w : WriteResult) : Yields (c.handleWrite w) (Drains c) := by
  obtain ⟨c', hc', hcase⟩ := handleWrite_case h w
  rw [hc']
  refine yields_ok ?_
  cases hcase with
  | nothing => exact Drains.refl h
  | @part k b hwriting hlt hinv hcont hleft =>
    refine ⟨⟨hinv, h.channel⟩, rfl, id, id, ?_, fun _ ↦ iff_of_true hwriting hleft⟩
    refine ⟨_, _, rfl, (wrote_writeEffects _).toDrainEffects, ?_⟩
    change _ ++ b.content = _
    rw [hcont, take_append_drop]
  | @all k b _ hwriting hpos hle hinv hnil hdone =>
    have hwf : (c.written c.outputBuffer.content b).Wf := ⟨hinv, h.channel⟩
    obtain ⟨hdrain, hidle, hnil'⟩ := (writeDone_spec hwf hnil).of_eq_ok hdone
    obtain ⟨es, out, htrace, heffects, hout⟩ := hdrain.trace
    refine ⟨hdrain.wf, hdrain.state, hdrain.tracked, hdrain.listening, ?_, fun _ ↦ ?_⟩
    · refine ⟨_, _, ?_, (wrote_writeEffects c.outputBuffer.content).1.append heffects, ?_⟩
      · rw [htrace]
        exact append_assoc ..
      · rw [append_assoc, hout]
        change _ ++ b.content = _
        rw [hnil, append_nil]
    · exact iff_of_false (by rw [hidle]; decide) (not_not.mpr hnil')

/-! ## Closing -/

/-- Only `startRead` takes a disconnected connection out of the state in which its channel can be
removed. -/
theorem call_removable (h : c.Wf) (hc : c.state = .kDisconnected) (hr : c.channel.Removable)
    {inLoop : Bool} {k : Call} (hk : inLoop = true → k ≠ .startRead) :
    Yields (c.call inLoop k) fun c' ↦ c'.channel.Removable := by
  by_cases hread : k.isReadControl = false
  · rw [call_of_disconnected hc inLoop hread]
    exact yields_ok hr
  · cases k with
    | startRead =>
      rw [call, startRead]
      split
      next hin => exact absurd rfl (hk hin)
      next => exact yields_pure hr
    | stopRead =>
      rw [call, stopRead]
      split
      · obtain ⟨c', hc', -, hremovable⟩ := stopReadInLoop_ok h
        exact Or.inl ⟨c', hc', hremovable hr⟩
      · exact yields_pure hr
    | _ => exact absurd rfl hread

theorem calls_removable (h : c.Wf) (hc : c.state = .kDisconnected) (hr : c.channel.Removable)
    {ks : List Call} (hks : Call.startRead ∉ ks) :
    Yields (c.calls ks) fun c' ↦ Quiet c c' ∧ c'.channel.Removable := by
  refine yields_runAll (I := fun c' ↦ Quiet c c' ∧ c'.channel.Removable)
    (P := fun _ k ↦ k ≠ .startRead) ?_ ⟨Quiet.refl h, hr⟩
    (along_of_forall fun _ k hk he ↦ hks (he ▸ hk))
  rintro d k ⟨hq, hrem⟩ hk
  have hd : d.state = .kDisconnected := hq.disconnected_iff.mpr hc
  exact ((call_spec hq.wf true k).imp fun _ ↦ hq.trans).and
    (call_removable hq.wf hd hrem fun _ ↦ hk)

/-- The calls made on a disconnected connection run through: none of them needs memory. -/
theorem calls_ok_of_disconnected (h : c.Wf) (hc : c.state = .kDisconnected) (ks : List Call) :
    ∃ c', c.calls ks = .ok c' := by
  have hcall : ∀ d : TcpConnection, d.Wf → d.state = .kDisconnected → ∀ k,
      ∃ d', d.call true k = .ok d' := by
    intro d hwf hd k
    cases k with
    | startRead =>
      obtain ⟨d', hd', -⟩ := startReadInLoop_ok hwf
      exact ⟨d', hd'⟩
    | stopRead =>
      obtain ⟨d', hd', -⟩ := stopReadInLoop_ok hwf
      exact ⟨d', hd'⟩
    | _ => exact ⟨d, call_of_disconnected hd true rfl⟩
  induction ks generalizing c with
  | nil => exact ⟨c, rfl⟩
  | cons k ks ih =>
    obtain ⟨d, hd⟩ := hcall c h hc k
    have hq : Quiet c d := (call_spec h true k).of_eq_ok hd
    obtain ⟨c', hc'⟩ := ih hq.wf (hq.disconnected_iff.mpr hc)
    exact ⟨c', by rw [calls, runAll, bind_of_ok hd]; exact hc'⟩

/-- What `handleClose` does. -/
structure Closes (c c' : TcpConnection) (onConnection : List Call) : Prop where
  wf : c'.Wf
  state : c'.state = .kDisconnected
  tracked : c'.channel.Tracked
  trace : ∃ es, c'.trace = c.trace ++ es ∧
    lifecycle es = [.connectionCallback .kDisconnected, .closeCallback]
  removable : c.channel.Tracked → Call.startRead ∉ onConnection → c'.channel.Removable

theorem handleClose_of_not_open (hc : c.state.isOpen = false) (ks : List Call) :
    c.handleClose ks = .error .assertion :=
  assert_bind_of_not (by rw [hc]; decide) _

theorem handleClose_ok (h : c.Wf) (hopen : c.state.isOpen = true) (ks : List Call) :
    ∃ c', c.handleClose ks = .ok c' ∧ Closes c c' ks := by
  obtain ⟨ch, hch, -, htracked, hremovable⟩ := setEvents_spec h.channel Channel.kNoneEvent
  have hnone : c.channel.disableAll = .ok ch := hch
  set d := { c with state := .kDisconnected, channel := ch }.emits
    [.connectionCallback .kDisconnected] with hd
  have hwf : d.Wf := ⟨h.buffer, htracked.consistent⟩
  -- the callback is quiet, and without `startRead` it leaves the channel removable
  obtain ⟨e, he⟩ := calls_ok_of_disconnected hwf rfl ks
  have hq : Quiet d e := (calls_spec hwf ks).of_eq_ok he
  obtain ⟨es, hes, hquiet⟩ := hq.trace
  refine ⟨e.emits [.closeCallback], ?_, ⟨hq.wf.buffer, hq.wf.channel⟩, hq.disconnected_iff.mpr rfl,
    hq.tracked htracked, ⟨[.connectionCallback .kDisconnected] ++ es ++ [.closeCallback], ?_, ?_⟩,
    fun ht hks ↦ ?_⟩
  · rw [handleClose, assert_bind_of hopen, bind_of_ok hnone]
    exact bind_of_ok he _
  · rw [emits_trace, hes, hd, emits_trace]
    simp only [append_assoc]
  · rw [lifecycle_append, lifecycle_append, hquiet]
    rfl
  · exact ((calls_removable hwf rfl (hremovable ht rfl) hks).of_eq_ok he).2

theorem handleClose_spec (h : c.Wf) (hopen : c.state.isOpen = true) (ks : List Call) :
    Yields (c.handleClose ks) fun c' ↦ Closes c c' ks :=
  Or.inl (handleClose_ok h hopen ks)

/-- What `connectEstablished` leaves. -/
structure Establishes (c : TcpConnection) : Prop where
  wf : c.Wf
  isOpen : c.state.isOpen = true
  tracked : c.channel.Tracked

/-- The connection as `connectEstablished` hands it to the callback. -/
theorem connectEstablished_eq (h : c.Wf) (hc : c.state = .kConnecting) (ks : List Call) :
    ∃ ch, c.connectEstablished ks = ({ c with state := .kConnected, channel := ch }.emits
        [.connectionCallback .kConnected]).calls ks ∧
      ch.Listening ∧ ch.events = c.channel.events ||| Channel.kReadEvent ∧
      ch.registration.watched = some ch.events := by
  obtain ⟨ch, hch, hevents, -⟩ :=
    setEvents_spec h.channel (c.channel.events ||| Channel.kReadEvent)
  obtain ⟨hl, hw⟩ := h.channel.listening (or_has_self (by decide) _) hch
  refine ⟨ch, ?_, hl, hevents, by rw [hw, hevents]⟩
  rw [connectEstablished, assert_bind_of hc, Channel.enableReading, bind_of_ok hch]
  rfl

theorem connectEstablished_spec (h : c.Wf) (hc : c.state = .kConnecting) (ks : List Call) :
    Yields (c.connectEstablished ks) Establishes := by
  obtain ⟨ch, heq, hl, -⟩ := connectEstablished_eq h hc ks
  rw [heq]
  set d := { c with state := .kConnected, channel := ch }.emits [.connectionCallback .kConnected]
  have hwf : d.Wf := ⟨h.buffer, hl.tracked.consistent⟩
  exact (calls_spec hwf ks).imp fun c' hq ↦ ⟨hq.wf, hq.isOpen, hq.tracked hl.tracked⟩

/-- A functor closes the connection, if it is a `forceClose` that finds it open, or is quiet. -/
theorem runFunctor_spec (h : c.Wf) (env : Env) (f : Functor) :
    Yields (c.runFunctor env f) fun c' ↦
      Quiet c c' ∨ c.state.isOpen = true ∧ Closes c c' env.onConnection := by
  cases f with
  | sendInLoop message =>
    by_cases hc : c.state = .kDisconnected
    · rw [runFunctor, sendInLoop_of_disconnected hc]
      exact yields_ok (Or.inl (Quiet.refl h))
    · exact (sendInLoop_spec h hc message.2 env.write).imp fun _ hs ↦ Or.inl hs.busy.quiet
  | shutdownInLoop => exact yields_pure (Or.inl (shutdownInLoop_busy h).quiet)
  | forceCloseInLoop =>
    rw [runFunctor, forceCloseInLoop]
    split
    next hopen => exact (handleClose_spec h hopen _).imp fun _ hcl ↦ Or.inr ⟨hopen, hcl⟩
    next => exact yields_pure (Or.inl (Quiet.refl h))
  | startReadInLoop => exact (startReadInLoop_spec h).imp fun _ hr ↦ Or.inl (hr.quiet h)
  | stopReadInLoop => exact (stopReadInLoop_spec h).imp fun _ hr ↦ Or.inl (hr.quiet h)
  | writeComplete => exact (calls_spec h _).imp fun _ ↦ Or.inl
  | highWaterMark len => exact (calls_spec h _).imp fun _ ↦ Or.inl

theorem forceClose_quiet (h : c.Wf) : Quiet c c.forceClose :=
  (call_spec h true .forceClose).of_eq_ok rfl

theorem messageCallback_spec (h : c.Wf) (ks : List Call) :
    Yields ((c.emits [.messageCallback]).calls ks) (Quiet c) := by
  have hq : Quiet c (c.emits [.messageCallback]) := Quiet.emits h rfl
  exact (calls_spec hq.wf ks).imp fun _ ↦ hq.trans

end TcpConnection

end Fishnet
