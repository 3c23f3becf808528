import Fishnet.Net.OutputStream

/-!
# The notifications of a connection

Two callbacks tell the user of a connection about its output. `writeCompleteCallback_` is queued
when everything sent so far has been written, by a `send` whose message the kernel takes at once or
by the `handleWrite` that empties `outputBuffer_`. `highWaterMarkCallback_` is queued when a `send`
makes `outputBuffer_` reach the mark.

## Which runs

Runs in the thread of the loop: any public operations, and writable events. What the callbacks do is
part of the run, since their functors call operations in the same thread. `write(2)` may take any
beginning of what it is offered or fail, but no direct write fails with `EPIPE` or `ECONNRESET`.

## The two halves of the argument

That the notifications come when they should is a statement about single steps (`Notified`), read
off the branches of `sendInLoop` and `handleWrite`. That a completed write really is one is a
statement about the trace (`WrittenWhenQueued`), and here the stream invariant does the work: when
`outputBuffer_` is empty, the bytes written are the bytes sent.
-/

namespace Fishnet

open TcpConnection Effect List

namespace Effect

/-- How often `writeCompleteCallback_` was queued. -/
def writeCompletes (es : List Effect) : ℕ :=
  es.countP fun e ↦ match e with
    | queueInLoop .writeComplete => true
    | _ => false

/-- The lengths with which `highWaterMarkCallback_` was queued, in order. -/
def highWaterMarks (es : List Effect) : List ℕ :=
  es.filterMap fun e ↦ match e with
    | queueInLoop (.highWaterMark len) => some len
    | _ => none

/-- Whenever `writeCompleteCallback_` was queued, all that had been sent had been written. -/
def WrittenWhenQueued (es : List Effect) : Prop :=
  ∀ pre post, es = pre ++ queueInLoop .writeComplete :: post → wroteBytes pre = sentBytes pre

@[simp] theorem writeCompletes_append (es fs : List Effect) :
    writeCompletes (es ++ fs) = writeCompletes es + writeCompletes fs :=
  countP_append ..

@[simp] theorem highWaterMarks_append (es fs : List Effect) :
    highWaterMarks (es ++ fs) = highWaterMarks es ++ highWaterMarks fs :=
  filterMap_append ..

theorem writtenWhenQueued_nil : WrittenWhenQueued [] := by
  intro pre post heq
  simp at heq

theorem WrittenWhenQueued.concat {es : List Effect} (h : WrittenWhenQueued es) {e : Effect}
    (he : e = queueInLoop .writeComplete → wroteBytes es = sentBytes es) :
    WrittenWhenQueued (es ++ [e]) := by
  intro pre post heq
  rcases eq_nil_or_concat post with rfl | ⟨post, last, rfl⟩
  · obtain ⟨rfl, hlast⟩ := append_inj' heq rfl
    exact he (singleton_inj.mp hlast)
  · rw [concat_eq_append, ← cons_append, ← append_assoc] at heq
    exact h pre post (append_inj' heq rfl).1

theorem WrittenWhenQueued.append {es fs : List Effect} (h : WrittenWhenQueued es)
    (hfs : writeCompletes fs = 0) : WrittenWhenQueued (es ++ fs) := by
  induction fs generalizing es with
  | nil => rwa [append_nil]
  | cons e fs ih =>
    rw [← singleton_append, writeCompletes_append, Nat.add_eq_zero_iff] at hfs
    rw [← singleton_append, ← append_assoc]
    refine ih (h.concat ?_) hfs.2
    rintro rfl
    exact absurd hfs.1 (by decide)

end Effect

/-! ## Runs -/

/-- What a run of the output consists of. -/
inductive OutputAct where
  /-- A public operation, called in the thread of the loop. -/
  | call (k : Call)
  /-- A writable event, with what `write(2)` will answer. -/
  | writable (write : WriteResult)

namespace OutputAct

/-- A direct write that would fail for good. -/
def isFatal : OutputAct → Bool
  | call k => k.isFatal
  | writable _ => false

/-- The act is a `send`. -/
def isSend : OutputAct → Bool
  | call k => k.sends.isSome
  | writable _ => false

end OutputAct

namespace TcpConnection

/-- The number of bytes in `outputBuffer_`. -/
def outputLen (c : TcpConnection) : ℕ := c.outputBuffer.readableBytes

def outputStep (c : TcpConnection) : OutputAct → Checked TcpConnection
  | .call k => c.call true k
  | .writable w => c.handleWrite w

/-- A connection with both callbacks set, right after `connectEstablished`. -/
def connected (poller : PollerKind) (mark : ℕ) : Checked TcpConnection := do
  let c ← TcpConnection.new poller true true mark
  c.connectEstablished []

/-- The kernel takes all of `data` in a direct write. -/
def WritesAtOnce (c : TcpConnection) (data : Bytes) (w : WriteResult) : Prop :=
  c.channel.isWriting = false ∧ c.outputLen = 0 ∧ ∃ n, w = .accepted n ∧ data.length ≤ n

/-- The kernel takes all that waits in `outputBuffer_`. -/
def WritesRest (c : TcpConnection) (w : WriteResult) : Prop :=
  0 < c.outputLen ∧ ∃ n, w = .accepted n ∧ c.outputLen ≤ n

/-- The act completes the output, by what the kernel answers: a `send` that is written at once, or a
writable event that drains the buffer. -/
def Completes (c : TcpConnection) : OutputAct → Prop
  | .call k => c.state = .kConnected ∧
      ∃ message w, k.sends = some (message, w) ∧ c.WritesAtOnce message.1 w
  | .writable w => c.WritesRest w

/-- What one act queues, and that a writable event empties the buffer if the kernel lets it. -/
structure Notified (m : ℕ) (c c' : TcpConnection) (a : OutputAct) : Prop where
  complete : c.Completes a → writeCompletes c'.trace = writeCompletes c.trace + 1
  incomplete : ¬c.Completes a → writeCompletes c'.trace = writeCompletes c.trace
  drained : ∀ w, a = .writable w → (c.WritesRest w ↔ 0 < c.outputLen ∧ c'.outputLen = 0)
  raised : a.isSend = true ∧ c.outputLen < m ∧ m ≤ c'.outputLen →
    highWaterMarks c'.trace = highWaterMarks c.trace ++ [c'.outputLen]
  notRaised : ¬(a.isSend = true ∧ c.outputLen < m ∧ m ≤ c'.outputLen) →
    highWaterMarks c'.trace = highWaterMarks c.trace

/-! ## One act -/

/-- The callbacks and the mark are as before. -/
structure SameSettings (c c' : TcpConnection) : Prop where
  writeComplete : c'.writeCompleteCallback = c.writeCompleteCallback
  highWater : c'.highWaterMarkCallback = c.highWaterMarkCallback
  mark : c'.highWaterMark = c.highWaterMark

theorem SameSettings.refl (c : TcpConnection) : SameSettings c c := ⟨rfl, rfl, rfl⟩

/-- What crossing the mark adds to the trace. -/
def markEffects (c c' : TcpConnection) : List Effect :=
  if c.outputLen < c.highWaterMark ∧ c.highWaterMark ≤ c'.outputLen then
    [.queueInLoop (.highWaterMark c'.outputLen)] else []

variable {c c' : TcpConnection} {data rest : Bytes} {w : WriteResult}

theorem outputLen_eq (h : c.Wf) : c.outputLen = c.outputBuffer.content.length :=
  h.buffer.length_content.symm

/-- The direct write either takes everything and says so, or leaves something, or is not tried. -/
theorem directWrite_cases (hcallback : c.writeCompleteCallback = true)
    (hlen : data.length < sizeBound) (hw : w.isFatal = false) :
    (c.WritesAtOnce data w ∧ c.directWrite data w =
      ⟨c.emits [.wrote data, .queueInLoop .writeComplete], data.length, 0, false⟩) ∨
    (¬c.WritesAtOnce data w ∧ ∃ es n, (es = [] ∨ ∃ out, es = [.wrote out]) ∧ n ≤ data.length ∧
      c.directWrite data w = ⟨c.emits es, n, data.length - n, false⟩) := by
  unfold directWrite
  split
  next hidle =>
    rw [Bool.and_eq_true, Bool.not_eq_true', beq_iff_eq] at hidle
    cases w with
    | error errno =>
      refine Or.inr ⟨?_, [], 0, Or.inl rfl, Nat.zero_le _, ?_⟩
      · rintro ⟨-, -, n, hn, -⟩
        cases hn
      · rw [emits_nil]
        exact congrArg (Direct.mk c 0 data.length) hw
    | accepted k =>
      have hsub : sizeSub data.length (min k data.length) = data.length - min k data.length :=
        sizeSub_of_bounded (min_le_right _ _) hlen
      by_cases hk : data.length ≤ k
      · refine Or.inl ⟨⟨hidle.1, hidle.2, k, rfl, hk⟩, ?_⟩
        have hmin : min k data.length = data.length := min_eq_right hk
        rw [hmin, Nat.sub_self] at hsub
        simp only [hmin, hsub, emits, hcallback, take_length, append_assoc]
        rfl
      · refine Or.inr ⟨?_, [.wrote (data.take k)], k, Or.inr ⟨_, rfl⟩, by omega, ?_⟩
        · rintro ⟨-, -, n, hn, hle⟩
          cases hn
          exact hk hle
        · have hmin : min k data.length = k := min_eq_left (by omega)
          have hne : (data.length - k == 0) = false := beq_eq_false_iff_ne.mpr (by omega)
          rw [hmin] at hsub
          simp only [hmin, hsub, hne]
          rfl
  next hbusy =>
    refine Or.inr ⟨?_, [], 0, Or.inl rfl, Nat.zero_le _, by rw [emits_nil]; rfl⟩
    rintro ⟨hidle, hempty, -⟩
    refine hbusy ?_
    rw [hidle, Bool.not_false, Bool.true_and, beq_iff_eq]
    exact hempty

/-- What is kept is added to the buffer, and crossing the mark is noted. -/
theorem bufferRest_eq_ok (h : c.Wf) (hcallback : c.highWaterMarkCallback = true)
    (hlen : rest.length < sizeBound) (hok : c.bufferRest rest = .ok c') :
    c'.outputLen = c.outputLen + rest.length ∧ c'.trace = c.trace ++ markEffects c c' ∧
      SameSettings c c' := by
  have hc' := (bufferRest_spec h hlen).of_eq_ok hok
  have hnew : c'.outputLen = c.outputLen + rest.length := by
    rw [outputLen_eq hc'.1, hc'.2.2.2.2.2.1, length_append, outputLen_eq h]
  have hsum : sizeAdd c.outputBuffer.readableBytes rest.length = c'.outputLen := by
    have hlt := h.buffer.content_lt
    rw [h.buffer.length_content] at hlt
    rw [hnew, sizeAdd_of_bounded hlt hlen]
    rfl
  have heffects : c.bufferEffects rest = markEffects c c' := by
    rw [bufferEffects, markEffects, hcallback]
    simp only [hsum, Bool.and_true, Bool.and_eq_true, decide_eq_true_eq]
    exact if_congr and_comm rfl rfl
  rw [bufferRest_eq] at hok
  obtain ⟨b, -, hrest⟩ := bind_eq_ok.mp hok
  obtain ⟨ch, hch⟩ : ∃ ch, c' =
      { c.emits (c.bufferEffects rest) with outputBuffer := b, channel := ch } := by
    split at hrest
    · cases hrest
      exact ⟨_, rfl⟩
    · obtain ⟨ch, -, hpure⟩ := bind_eq_ok.mp hrest
      rw [pure_eq_ok] at hpure
      exact ⟨ch, hpure.symm⟩
  refine ⟨hnew, ?_, ?_⟩
  · rw [← heffects]
    exact congrArg trace hch
  · rw [hch]
    exact ⟨rfl, rfl, rfl⟩

/-- What a `send` that is taken leads to. -/
inductive SendCase (c : TcpConnection) (data : Bytes) (w : WriteResult) (c' : TcpConnection) :
    Prop where
  | written (h : c.WritesAtOnce data w)
      (hc' : c' = c.emits [.sent data, .wrote data, .queueInLoop .writeComplete])
  | kept (h : ¬c.WritesAtOnce data w) (es : List Effect) (hes : es = [] ∨ ∃ out, es = [.wrote out])
      (htrace : c'.trace = c.trace ++ (.sent data :: es ++ markEffects c c'))
      (hsettings : SameSettings c c')

theorem send_cases (h : c.Wf) (hc : c.state = .kConnected) (hwrite : c.writeCompleteCallback = true)
    (hhigh : c.highWaterMarkCallback = true) (message : Message) (hw : w.isFatal = false)
    (hok : c.send true message w = .ok c') : SendCase c message.1 w c' := by
  rw [send, if_pos hc, if_pos rfl] at hok
  set d := c.emits [.sent message.1] with hd
  have hne : d.state ≠ .kDisconnected := by
    rw [hd, emits_state, hc]
    decide
  rw [sendInLoop, if_neg hne] at hok
  rcases directWrite_cases (c := d) hwrite message.2 hw with
    ⟨hall, hdirect⟩ | ⟨hnot, es, n, hes, hn, hdirect⟩
  · rw [hdirect] at hok
    obtain ⟨-, hrest⟩ := assert_bind_eq_ok.mp hok
    cases hrest
    refine .written hall ?_
    rw [hd, emits_emits]
    rfl
  · rw [hdirect] at hok
    obtain ⟨-, hrest⟩ := assert_bind_eq_ok.mp hok
    split at hrest
    next hpos =>
      have hwf : (d.emits es).Wf := ⟨h.buffer, h.channel⟩
      have hlen : (message.1.drop n).length < sizeBound := by
        have := message.2
        rw [length_drop]
        omega
      obtain ⟨-, htrace, hsettings⟩ := bufferRest_eq_ok hwf hhigh hlen hrest
      refine .kept hnot es hes ?_ ⟨hsettings.1, hsettings.2, hsettings.3⟩
      rw [htrace, hd, emits_emits, emits_trace, append_assoc]
      rfl
    next hpos =>
      cases hrest
      refine .kept hnot es hes ?_ ⟨rfl, rfl, rfl⟩
      have hsame : markEffects c (d.emits es) = [] := by
        rw [markEffects, if_neg]
        rintro ⟨hlt, hge⟩
        exact absurd (hlt.trans_le hge) (lt_irrefl _)
      rw [hsame, append_nil, hd, emits_emits, emits_trace]
      rfl

/-- A call that is not a `send`, or a `send` that is not taken, does not touch the output. -/
theorem call_of_not_send (h : c.Wf) {k : Call} (hk : k.sends = none ∨ c.state ≠ .kConnected)
    (hok : c.call true k = .ok c') :
    c'.outputBuffer = c.outputBuffer ∧ SameSettings c c' ∧
      ∃ es, c'.trace = c.trace ++ es ∧ writeCompletes es = 0 ∧ highWaterMarks es = [] := by
  have hsame : ∃ es, c.trace = c.trace ++ es ∧ writeCompletes es = 0 ∧ highWaterMarks es = [] :=
    ⟨[], (append_nil _).symm, rfl, rfl⟩
  cases call_cases h hok with
  | send hsends hok =>
    rw [hsends] at hk
    rw [send, if_neg (hk.resolve_left (Option.some_ne_none _))] at hok
    cases hok
    exact ⟨rfl, .refl c, hsame⟩
  | reread _ _ hr =>
    obtain ⟨channel, reading, rfl⟩ := hr.eq
    exact ⟨rfl, ⟨rfl, rfl, rfl⟩, hsame⟩
  | ignored => exact ⟨rfl, .refl c, hsame⟩
  | closing _ _ hes =>
    refine ⟨rfl, ⟨rfl, rfl, rfl⟩, _, rfl, ?_⟩
    obtain rfl | ⟨rfl, -⟩ | rfl | rfl := hes <;> exact ⟨rfl, rfl⟩

/-- What a writable event leads to. -/
inductive WritableCase (c : TcpConnection) (w : WriteResult) (c' : TcpConnection) : Prop where
  | drained (hall : c.WritesRest w) (hempty : c'.outputLen = 0) (es : List Effect)
      (hes : es = [] ∨ ∃ unsent, es = [.shutdownWrite unsent])
      (htrace : c'.trace =
        c.trace ++ [.wrote c.outputBuffer.content] ++ [.queueInLoop .writeComplete] ++ es)
      (hsettings : SameSettings c c')
  | pending (hnot : ¬c.WritesRest w) (hlen : ¬(0 < c.outputLen ∧ c'.outputLen = 0))
      (es : List Effect) (hes : es = [] ∨ ∃ out, es = [.wrote out])
      (htrace : c'.trace = c.trace ++ es) (hsettings : SameSettings c c')

theorem handleWrite_cases (h : c.Wf) (hwrite : c.writeCompleteCallback = true)
    (hwriting : c.channel.isWriting = true ↔ c.outputBuffer.content ≠ [])
    (hok : c.handleWrite w = .ok c') : WritableCase c w c' := by
  obtain ⟨c₁, hc₁, hcase⟩ := handleWrite_case h w
  rw [hok] at hc₁
  cases hc₁
  cases hcase with
  | nothing hnothing =>
    refine .pending ?_ ?_ [] (Or.inl rfl) (append_nil _).symm (.refl _)
    · rintro ⟨hpos, n, rfl, hle⟩
      have hcontent := mt h.buffer.content_eq_nil_iff.mp hpos.ne'
      have hmin := hnothing (hwriting.mpr hcontent) n rfl
      rw [outputLen] at hpos hle
      omega
    · rintro ⟨hpos, hzero⟩
      omega
  | @part k b _ hlt hinv hcont hleft =>
    refine .pending ?_ ?_ _ (Or.inr ⟨_, rfl⟩) rfl ⟨rfl, rfl, rfl⟩
    · rintro ⟨-, n, hn, hle⟩
      cases hn
      exact absurd (hlt.trans_le hle) (lt_irrefl _)
    · rintro ⟨-, hzero⟩
      exact hleft (hinv.content_eq_nil_iff.mpr hzero)
  | @all k b _ _ hpos hle hinv hnil hdone =>
    have hwf : (c.written c.outputBuffer.content b).Wf := ⟨hinv, h.channel⟩
    obtain ⟨ch, hch, hidle, -⟩ := hwf.disableWriting
    rw [writeDone_eq hch hidle] at hdone
    cases hdone
    refine .drained ⟨hpos, k, rfl, hle⟩ (hinv.content_eq_nil_iff.mp hnil)
      (if c.state = .kDisconnecting then [.shutdownWrite b.content] else []) ?_ ?_ ⟨rfl, rfl, rfl⟩
    · split
      · exact Or.inr ⟨_, rfl⟩
      · exact Or.inl rfl
    · have hset : (c.written c.outputBuffer.content b).writeCompleteCallback = true := hwrite
      rw [emits_trace, doneEffects, if_pos hset, ← append_assoc]
      rfl

/-! ## Runs -/

/-- What holds of a connection with both callbacks and the mark `m`, all along a run. -/
structure Tracking (m : ℕ) (c : TcpConnection) : Prop where
  streaming : c.Streaming
  state : c.state ≠ .kDisconnected
  writeComplete : c.writeCompleteCallback = true
  highWater : c.highWaterMarkCallback = true
  mark : c.highWaterMark = m
  written : WrittenWhenQueued c.trace

variable {m : ℕ}

theorem Tracking.of_same (h : Tracking m c) (hstreaming : c'.Streaming)
    (hstate : c'.state ≠ .kDisconnected) (hsettings : SameSettings c c')
    (hwritten : WrittenWhenQueued c'.trace) : Tracking m c' :=
  ⟨hstreaming, hstate, hsettings.writeComplete.trans h.writeComplete,
    hsettings.highWater.trans h.highWater, hsettings.mark.trans h.mark, hwritten⟩

theorem Tracking.whole (h : Tracking m c) (hlen : c.outputLen = 0) :
    wroteBytes c.trace = sentBytes c.trace := by
  have hnil : c.outputBuffer.content = [] := h.streaming.wf.buffer.content_eq_nil_iff.mpr hlen
  have hwhole := h.streaming.whole h.state
  rwa [hnil, append_nil] at hwhole

theorem highWaterMarks_markEffects_pos (h : c.outputLen < c.highWaterMark ∧
    c.highWaterMark ≤ c'.outputLen) : highWaterMarks (markEffects c c') = [c'.outputLen] := by
  rw [markEffects, if_pos h]
  rfl

theorem highWaterMarks_markEffects_neg (h : ¬(c.outputLen < c.highWaterMark ∧
    c.highWaterMark ≤ c'.outputLen)) : highWaterMarks (markEffects c c') = [] := by
  rw [markEffects, if_neg h]
  rfl

theorem writeCompletes_markEffects (c c' : TcpConnection) :
    writeCompletes (markEffects c c') = 0 := by
  rw [markEffects]
  split <;> rfl

/-- **A `send` that is taken.** -/
theorem SendCase.notified {message : Message} {k : Call} (h : Tracking m c)
    (hc : c.state = .kConnected) (hk : k.sends = some (message, w))
    (hcase : SendCase c message.1 w c') : WrittenWhenQueued c'.trace ∧ SameSettings c c' ∧
      Notified m c c' (.call k) := by
  have hcompletes : c.Completes (.call k) ↔ c.WritesAtOnce message.1 w := by
    constructor
    · rintro ⟨-, message', w', hk', hall⟩
      rw [hk] at hk'
      cases hk'
      exact hall
    · exact fun hall ↦ ⟨hc, message, w, hk, hall⟩
  have hsend : (OutputAct.call k).isSend = true := by
    rw [OutputAct.isSend, hk]
    rfl
  cases hcase with
  | written hall hc' =>
    subst hc'
    have hwhole := h.whole hall.2.1
    refine ⟨?_, ⟨rfl, rfl, rfl⟩, fun _ ↦ ?_, fun hnot ↦ absurd (hcompletes.mpr hall) hnot,
      fun _ ha ↦ (by cases ha), ?_, ?_⟩
    · have hpre : WrittenWhenQueued (c.trace ++ [.sent message.1, .wrote message.1]) :=
        h.written.append rfl
      have hqueued := hpre.concat (e := .queueInLoop .writeComplete) fun _ ↦ by
        simp [wroteBytes, sentBytes, hwhole]
      rwa [append_assoc] at hqueued
    · rw [emits_trace, writeCompletes_append]
      rfl
    · rintro ⟨-, hlt, hge⟩
      exact absurd (hlt.trans_le hge) (lt_irrefl _)
    · intro _
      rw [emits_trace, highWaterMarks_append]
      exact append_nil _
  | kept hnot es hes htrace hsettings =>
    have hcount : writeCompletes (.sent message.1 :: es ++ markEffects c c') = 0 := by
      rw [writeCompletes_append, writeCompletes_markEffects]
      rcases hes with rfl | ⟨out, rfl⟩ <;> rfl
    have hmarks : highWaterMarks (.sent message.1 :: es) = [] := by
      rcases hes with rfl | ⟨out, rfl⟩ <;> rfl
    refine ⟨?_, hsettings, fun hcomp ↦ absurd (hcompletes.mp hcomp) hnot, fun _ ↦ ?_,
      fun _ ha ↦ (by cases ha), ?_, ?_⟩
    · rw [htrace]
      exact h.written.append hcount
    · rw [htrace, writeCompletes_append, hcount, Nat.add_zero]
    · rintro ⟨-, hcross⟩
      rw [htrace, highWaterMarks_append, highWaterMarks_append, hmarks,
        highWaterMarks_markEffects_pos (by rwa [h.mark]), nil_append]
    · intro hcross
      rw [htrace, highWaterMarks_append, highWaterMarks_append, hmarks,
        highWaterMarks_markEffects_neg, append_nil, append_nil]
      rw [h.mark]
      exact fun hboth ↦ hcross ⟨hsend, hboth⟩

/-- **A call.** -/
theorem call_notified {k : Call} (h : Tracking m c) (hk : k.isFatal = false)
    (hok : c.call true k = .ok c') : WrittenWhenQueued c'.trace ∧ SameSettings c c' ∧
      Notified m c c' (.call k) := by
  by_cases htaken : k.sends = none ∨ c.state ≠ .kConnected
  · obtain ⟨hbuffer, hsettings, es, htrace, hcount, hmarks⟩ :=
      call_of_not_send h.streaming.wf htaken hok
    have hlen : c'.outputLen = c.outputLen := by
      rw [outputLen, hbuffer]
      rfl
    refine ⟨?_, hsettings, ?_, fun _ ↦ ?_, fun _ ha ↦ (by cases ha), ?_, fun _ ↦ ?_⟩
    · rw [htrace]
      exact h.written.append hcount
    · rintro ⟨hc, message, w, hsends, -⟩
      rcases htaken with hnone | hne
      · rw [hnone] at hsends
        cases hsends
      · exact absurd hc hne
    · rw [htrace, writeCompletes_append, hcount, Nat.add_zero]
    · rintro ⟨-, hlt, hge⟩
      omega
    · rw [htrace, highWaterMarks_append, hmarks, append_nil]
  · rw [not_or, not_not] at htaken
    obtain ⟨hsome, hc⟩ := htaken
    cases k with
    | send message w =>
      exact (send_cases h.streaming.wf hc h.writeComplete h.highWater message hk hok).notified h hc
        rfl
    | sendBuffer buf w =>
      rw [call, sendBuffer_eq] at hok
      exact (send_cases h.streaming.wf hc h.writeComplete h.highWater buf.message hk
        hok).notified h hc rfl
    | _ => exact absurd rfl hsome

/-- **A writable event.** -/
theorem handleWrite_notified (h : Tracking m c) (hok : c.handleWrite w = .ok c') :
    WrittenWhenQueued c'.trace ∧ SameSettings c c' ∧ Notified m c c' (.writable w) := by
  have hsend : ¬((OutputAct.writable w).isSend = true ∧ c.outputLen < m ∧ m ≤ c'.outputLen) :=
    fun hall ↦ Bool.false_ne_true hall.1
  have hwriting := h.streaming.writing h.state
  cases handleWrite_cases h.streaming.wf h.writeComplete hwriting hok with
  | drained hall hempty es hes htrace hsettings =>
    have hcount : writeCompletes es = 0 := by
      rcases hes with rfl | ⟨unsent, rfl⟩ <;> rfl
    have hmarks : highWaterMarks es = [] := by
      rcases hes with rfl | ⟨unsent, rfl⟩ <;> rfl
    refine ⟨?_, hsettings, fun _ ↦ ?_, fun hnot ↦ absurd hall hnot, ?_,
      fun hraise ↦ absurd hraise hsend, fun _ ↦ ?_⟩
    · rw [htrace]
      have hpre : WrittenWhenQueued (c.trace ++ [.wrote c.outputBuffer.content]) :=
        h.written.append rfl
      refine (hpre.concat fun _ ↦ ?_).append hcount
      have hwhole := h.streaming.whole h.state
      simpa [wroteBytes, sentBytes] using hwhole
    · rw [htrace, writeCompletes_append, writeCompletes_append, writeCompletes_append, hcount]
      rfl
    · rintro _ ⟨⟩
      exact iff_of_true hall ⟨hall.1, hempty⟩
    · rw [htrace, highWaterMarks_append, highWaterMarks_append, highWaterMarks_append, hmarks]
      simp [highWaterMarks]
  | pending hnot hlen es hes htrace hsettings =>
    have hcount : writeCompletes es = 0 := by
      rcases hes with rfl | ⟨out, rfl⟩ <;> rfl
    have hmarks : highWaterMarks es = [] := by
      rcases hes with rfl | ⟨out, rfl⟩ <;> rfl
    refine ⟨?_, hsettings, fun hcomp ↦ absurd hcomp hnot, fun _ ↦ ?_, ?_,
      fun hraise ↦ absurd hraise hsend, fun _ ↦ ?_⟩
    · rw [htrace]
      exact h.written.append hcount
    · rw [htrace, writeCompletes_append, hcount, Nat.add_zero]
    · rintro _ ⟨⟩
      exact iff_of_false hnot hlen
    · rw [htrace, highWaterMarks_append, hmarks, append_nil]

/-- **One act** keeps the invariant and queues what it should. -/
theorem outputStep_spec {a : OutputAct} (h : Tracking m c) (ha : a.isFatal = false) :
    Yields (c.outputStep a) fun c' ↦ Tracking m c' ∧ Notified m c c' a := by
  cases a with
  | call k =>
    have hyields := (h.streaming.call ha).and (call_spec h.streaming.wf true k)
    refine hyields.imp_ok fun c' hok hc' ↦ ?_
    obtain ⟨hwritten, hsettings, hnotified⟩ := call_notified h ha hok
    refine ⟨h.of_same hc'.1 ?_ hsettings hwritten, hnotified⟩
    exact fun hd ↦ h.state (hc'.2.disconnected_iff.mp hd)
  | writable w =>
    have hyields := (h.streaming.handleWrite w).and (handleWrite_spec h.streaming.wf w)
    refine hyields.imp_ok fun c' hok hc' ↦ ?_
    obtain ⟨hwritten, hsettings, hnotified⟩ := handleWrite_notified h hok
    refine ⟨h.of_same hc'.1 ?_ hsettings hwritten, hnotified⟩
    rw [hc'.2.state]
    exact h.state

theorem connected_spec (poller : PollerKind) (m : ℕ) :
    ∃ c, connected poller m = .ok c ∧ Tracking m c := by
  obtain ⟨c, hc, hwf, hstate, -, hchannel, hcontent, htrace⟩ := new_spec poller true true m
  obtain ⟨ch, heq, hl, hevents, -⟩ := connectEstablished_eq hwf hstate []
  set d := { c with state := .kConnected, channel := ch }.emits [.connectionCallback .kConnected]
    with hd
  have hdtrace : d.trace = [.connectionCallback .kConnected] := by
    rw [hd, emits_trace, htrace]
    rfl
  have hsettings : c.writeCompleteCallback = true ∧ c.highWaterMarkCallback = true ∧
      c.highWaterMark = m := by
    obtain ⟨b, -, hpure⟩ := bind_eq_ok.mp hc
    cases hpure
    exact ⟨rfl, rfl, rfl⟩
  have hwritten : WrittenWhenQueued d.trace := by
    rw [hdtrace]
    exact writtenWhenQueued_nil.append rfl
  have hconnected : d.state ≠ .kDisconnected := by
    change StateE.kConnected ≠ .kDisconnected
    decide
  refine ⟨d, ?_, ⟨⟨⟨hwf.buffer, hl.tracked.consistent⟩, ?_, ?_, fun _ ↦ ?_, fun _ ↦ ?_⟩, hconnected,
    hsettings.1, hsettings.2.1, hsettings.2.2, hwritten⟩⟩
  · rw [connected, bind_of_ok hc, heq]
    rfl
  · rw [hdtrace]
    simp [isRemote]
  · rw [hdtrace]
    simp [unsentAtShutdown]
  · rw [hdtrace]
    exact hcontent
  · refine iff_of_false ?_ (not_not.mpr hcontent)
    change ¬ch.isWriting = true
    rw [Channel.isWriting, hevents, hchannel]
    cases poller <;> decide

/-- The step queues the high water callback. -/
def QueuesHighWater (c c' : TcpConnection) : Prop :=
  highWaterMarks c'.trace ≠ highWaterMarks c.trace

theorem Notified.below {a : OutputAct} (h : Notified m c c' a) (hqueues : QueuesHighWater c c') :
    c.outputLen < m := by
  by_contra hge
  exact hqueues (h.notRaised fun hall ↦ hge hall.2.1)

/-- **Notifications track the output.** For every back end, every mark and every run in the thread
of the loop without a fatal direct write, no assertion fails. Whenever `writeCompleteCallback_` is
queued, all that was sent has been written. Every act queues it once if it completes the output and
not otherwise, and queues `highWaterMarkCallback_` with the new length exactly if it is a `send`
that takes the buffer from below the mark to it. Between two such notifications the buffer was
below the mark. -/
theorem notifications_track (poller : PollerKind) (m : ℕ) (acts : List OutputAct)
    (hacts : ∀ a ∈ acts, a.isFatal = false) :
    ∃ c₀, connected poller m = .ok c₀ ∧
      Yields (runAll outputStep c₀ acts) (fun c ↦ WrittenWhenQueued c.trace) ∧
      Along outputStep (fun c a ↦ ∀ c', c.outputStep a = .ok c' → Notified m c c' a) c₀ acts ∧
      ∀ as a bs b cs c₁ c₂ c₃ c₄, acts = as ++ a :: (bs ++ b :: cs) →
        runAll outputStep c₀ as = .ok c₁ → c₁.outputStep a = .ok c₂ →
        runAll outputStep c₂ bs = .ok c₃ → c₃.outputStep b = .ok c₄ →
        QueuesHighWater c₁ c₂ → QueuesHighWater c₃ c₄ →
        ∃ pre c, pre <+: bs ∧ runAll outputStep c₂ pre = .ok c ∧ c.outputLen < m := by
  obtain ⟨c₀, hc₀, htracking⟩ := connected_spec poller m
  have hnonfatal : Along outputStep (fun _ a ↦ a.isFatal = false) c₀ acts :=
    along_of_forall fun _ ↦ hacts
  have hstep : ∀ c a, Tracking m c → a.isFatal = false →
      Yields (c.outputStep a) (Tracking m) :=
    fun c a h ha ↦ (outputStep_spec h ha).imp fun _ hc' ↦ hc'.1
  refine ⟨c₀, hc₀, ?_, ?_, ?_⟩
  · exact (yields_runAll hstep htracking hnonfatal).imp fun c h ↦ h.written
  · refine along_imp (I := Tracking m) (fun c a c' h ha ↦ (hstep c a h ha).of_eq_ok) ?_ htracking
      hnonfatal
    intro c a h ha c' hok
    exact ((outputStep_spec h ha).of_eq_ok hok).2
  · intro as a bs b cs c₁ c₂ c₃ c₄ hsplit h₁ h₂ h₃ h₄ _ hqueues
    refine ⟨bs, c₃, prefix_rfl, h₃, ?_⟩
    have hb : b.isFatal = false := hacts b (by simp [hsplit])
    have h₁₃ : runAll outputStep c₀ (as ++ a :: bs) = .ok c₃ :=
      runAll_append_eq_ok.mpr ⟨c₁, h₁, runAll_cons_eq_ok.mpr ⟨c₂, h₂, h₃⟩⟩
    have hpre : acts = (as ++ a :: bs) ++ b :: cs := by
      rw [hsplit, append_assoc, cons_append]
    rw [hpre] at hnonfatal
    have htracking₃ : Tracking m c₃ :=
      (yields_runAll hstep htracking (along_of_append hnonfatal)).of_eq_ok h₁₃
    exact ((outputStep_spec htracking₃ hb).of_eq_ok h₄).2.below hqueues

/-- A message of which one byte is written at once and three reach the mark, a writable event that
drains them, and a message that is written at once. -/
def drainedActs : List OutputAct :=
  [.call (.send ⟨[1, 2, 3, 4], by decide⟩ (.accepted 1)), .writable (.accepted 5),
    .call (.send ⟨[9], by decide⟩ (.accepted 1))]

theorem notifications_track_drained :
    ∃ c₀ c, connected .epoll 3 = .ok c₀ ∧ runAll outputStep c₀ drainedActs = .ok c ∧
      highWaterMarks c.trace = [3] ∧ writeCompletes c.trace = 2 ∧
      wroteBytes c.trace = [1, 2, 3, 4, 9] ∧ WrittenWhenQueued c.trace := by
  obtain ⟨c₀, hc₀, hyields, -, -⟩ := notifications_track .epoll 3 drainedActs (by decide)
  have hvalue : (connected .epoll 3 >>= fun c₀ ↦ (runAll outputStep c₀ drainedActs).map fun c ↦
      (highWaterMarks c.trace, writeCompletes c.trace, wroteBytes c.trace)) =
        .ok ([3], 2, [1, 2, 3, 4, 9]) := by decide +kernel
  rw [bind_of_ok hc₀] at hvalue
  obtain ⟨c, hc, hobserved⟩ := map_eq_ok.mp hvalue
  rw [Prod.mk.injEq, Prod.mk.injEq] at hobserved
  obtain ⟨hmarks, hcompletes, hwrote⟩ := hobserved
  exact ⟨c₀, c, hc₀, hc, hmarks, hcompletes, hwrote, hyields.of_eq_ok hc⟩

end TcpConnection

end Fishnet
