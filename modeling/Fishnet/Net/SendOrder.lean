import Fishnet.Net.SendThreads

/-!
# The order of what is sent

What reaches the stream of a connection that several threads write to, and when it is cut off.

While the connection is `kConnected`, messages are neither torn nor repeated, and those of one
thread keep their order: `sends_in_order`. The calls of the loop thread overtake the others, but a
thread does not overtake itself, since all its calls take the same way.

`shutdown` is meant to wait for what was sent before it. Between threads other than the loop thread
it does: its `shutdownInLoop` is queued behind their messages. But the loop thread's `shutdown`
half-closes at once, and so does a `handleWrite` that empties `outputBuffer_` after `state_` was
set. Neither looks at the queue. And a message whose turn comes after the connection was closed is
given up, while a half-close is not. `halfCloses_complete_iff` says that there is no other way to
lose a message.
-/

namespace Fishnet

open List TcpConnection

namespace SendThreads

variable {T : Type} {s s' : SendThreads T} {call : SendCall T} {q : QueuedCall T}
  {pending : List (QueuedCall T)}

/-! ## The messages handed over -/

theorem queued_append (pending : List (QueuedCall T)) (q : QueuedCall T) :
    queued (pending ++ [q]) = queued pending ++ q.sends.toList := by
  rw [queued, filterMap_append]
  cases hq : q.sends <;> simp [queued, hq]

theorem queued_cons_of_none (hq : q.sends = none)
    (pending : List (QueuedCall T)) : queued (q :: pending) = queued pending :=
  filterMap_cons_none hq

theorem mem_queued : call ∈ queued pending ↔ ∃ q ∈ pending, q.sends = some call :=
  mem_filterMap

theorem placed_queueInLoop (q : QueuedCall T) :
    (s.queueInLoop q).placed = s.placed ++ q.sends.toList := by
  rw [placed, queueInLoop, queued_append, ← append_assoc]
  rfl

theorem mem_taken : call ∈ s.taken ↔ ⟨call, true⟩ ∈ s.handled := by
  simp only [taken, mem_map, mem_filter]
  constructor
  · rintro ⟨⟨_, _⟩, ⟨hmem, rfl⟩, rfl⟩
    exact hmem
  · exact fun hmem ↦ ⟨_, ⟨hmem, rfl⟩, rfl⟩

theorem mem_dropped : call ∈ s.dropped ↔ ⟨call, false⟩ ∈ s.handled := by
  simp only [dropped, mem_map, mem_filter]
  constructor
  · rintro ⟨⟨_, kept⟩, ⟨hmem, hkept⟩, rfl⟩
    cases kept with
    | true => cases hkept
    | false => exact hmem
  · exact fun hmem ↦ ⟨_, ⟨hmem, rfl⟩, rfl⟩

theorem mem_placed :
    call ∈ s.placed ↔ call ∈ s.taken ∨ call ∈ s.dropped ∨ call ∈ queued s.pending := by
  rw [placed, mem_append, mem_taken, mem_dropped, ← or_assoc]
  refine or_congr_left ?_
  constructor
  · intro hmem
    obtain ⟨⟨_, kept⟩, hhandled, rfl⟩ := mem_map.mp hmem
    cases kept with
    | true => exact Or.inl hhandled
    | false => exact Or.inr hhandled
  · rintro (hmem | hmem) <;> exact mem_map.mpr ⟨_, hmem, rfl⟩

theorem taken_eq_of_kept (h : ∀ h ∈ s.handled, h.kept = true) :
    s.taken = s.handled.map (·.call) := by
  rw [taken, filter_eq_self.mpr h]

theorem forall_handled_append {handled : List (Handled T)} {kept : Bool}
    (h : ∀ h ∈ handled, h.kept = true) (hkept : kept = true) :
    ∀ h ∈ handled ++ [⟨call, kept⟩], h.kept = true := by
  intro h' hh'
  rcases mem_append.mp hh' with hh' | hh'
  · exact h h' hh'
  · rw [mem_singleton.mp hh']
    exact hkept

/-- The bytes of some messages. -/
def bytes (calls : List (SendCall T)) : Bytes := (calls.map (·.message.1)).flatten

theorem bytes_taken_append {handled : List (Handled T)} (hs : s.handled = handled)
    (call : SendCall T) (kept : Bool) (hs' : s'.handled = handled ++ [⟨call, kept⟩]) :
    bytes s'.taken = bytes s.taken ++ if kept then call.message.1 else [] := by
  rw [taken, hs', filter_append, taken, hs]
  cases kept <;> simp [bytes]

/-! ## The invariant -/

/-- What is known about the calls that have returned. -/
structure Noted (s : SendThreads T) : Prop where
  finished : ∀ t, (s.pc t).finished ⊆ s.placed
  returned : s.returned ⊆ s.placed
  owed : s.owed ⊆ s.returned
  before : ∀ t, (s.pc t).before ⊆ s.returned
  queued : ∀ q ∈ s.pending, q.before ⊆ s.returned
  /-- What returned before a queued `shutdown` does not wait behind it. -/
  fifo : s.pending.Pairwise fun q q' ↦ ∀ call ∈ q.before, q'.sends ≠ some call

/-- **The invariant of the threads.** -/
structure Sound [DecidableEq T] (s : SendThreads T) : Prop where
  wf : s.conn.Wf
  stream : s.conn.stream = bytes s.taken
  kept : s.conn.state = .kConnected → ∀ h ∈ s.handled, h.kept = true
  ordered : Ordered s.sends s.placed s.pc
  remote : ∀ call ∈ queued s.pending, call.thread ≠ none
  noted : s.Noted

theorem Noted.queueInLoop (h : s.Noted) (hbefore : q.before ⊆ s.returned)
    (hnew : ∀ call, q.sends = some call → call ∉ s.placed) : (s.queueInLoop q).Noted := by
  have hplaced : s.placed ⊆ (s.queueInLoop q).placed := by
    rw [placed_queueInLoop]
    exact subset_append_left _ _
  refine ⟨fun t ↦ List.Subset.trans (h.finished t) hplaced, List.Subset.trans h.returned hplaced,
    h.owed, h.before, ?_, ?_⟩
  · intro q' hq'
    rcases mem_append.mp hq' with hq' | hq'
    · exact h.queued q' hq'
    · rw [mem_singleton.mp hq']
      exact hbefore
  · refine pairwise_append.mpr ⟨h.fifo, pairwise_singleton _ _, ?_⟩
    intro q' hq' _ hq call hcall hsends
    rw [mem_singleton.mp hq] at hsends
    exact hnew call hsends (h.returned (h.queued q' hq' hcall))

/-- The queue may be shorter and more handed over, and nothing else that matters has changed. -/
theorem Noted.of_suffix (h : s.Noted) (hpending : s'.pending <:+ s.pending)
    (hplaced : s.placed ⊆ s'.placed) (hpc : s'.pc = s.pc) (hreturned : s'.returned = s.returned)
    (howed : s'.owed = s.owed) : s'.Noted := by
  constructor
  · rw [hpc]
    exact fun t ↦ List.Subset.trans (h.finished t) hplaced
  · rw [hreturned]
    exact List.Subset.trans h.returned hplaced
  · rw [howed, hreturned]
    exact h.owed
  · rw [hpc, hreturned]
    exact h.before
  · rw [hreturned]
    exact fun q hq ↦ h.queued q (hpending.subset hq)
  · exact h.fifo.sublist hpending.sublist

variable [DecidableEq T]

theorem Noted.goto (h : s.Noted) {t : Option T} {p : CallPc T} (hfinished : p.finished ⊆ s.placed)
    (hbefore : p.before ⊆ s.returned) : (s.goto t p).Noted where
  finished := (Function.forall_update_iff _ fun _ (p : CallPc T) ↦ p.finished ⊆ s.placed).mpr
    ⟨hfinished, fun t _ ↦ h.finished t⟩
  returned := h.returned
  owed := h.owed
  before := (Function.forall_update_iff _ fun _ (p : CallPc T) ↦ p.before ⊆ s.returned).mpr
    ⟨hbefore, fun t _ ↦ h.before t⟩
  queued := h.queued
  fifo := h.fifo

/-! ## What keeps the invariant -/

/-- A message that the loop has dealt with is in the stream, unless it was given up. -/
theorem Sound.stream_of_deals (h : Sound s) {c' : TcpConnection} {kept : Bool}
    (hdeals : Deals s.conn c' call.message.1 kept)
    (hhandled : s'.handled = s.handled ++ [⟨call, kept⟩]) : c'.stream = bytes s'.taken := by
  rw [hdeals.stream, h.stream, bytes_taken_append rfl call kept hhandled]

theorem Sound.kept_of_deals (h : Sound s) {c' : TcpConnection} {kept : Bool}
    (hdeals : Deals s.conn c' call.message.1 kept) (hc : c'.state = .kConnected) :
    ∀ h ∈ s.handled ++ [⟨call, kept⟩], h.kept = true := by
  have hconnected : s.conn.state = .kConnected := hdeals.state.symm.trans hc
  exact forall_handled_append (h.kept hconnected) (hdeals.kept hconnected)

/-- The loop thread sends without the queue. -/
theorem Sound.sendInLoop (h : Sound s) {c' : TcpConnection} {kept : Bool}
    (ht : s.pc none = .sending call) (hdeals : Deals s.conn c' call.message.1 kept) :
    Sound ({ s with conn := c', handled := s.handled ++ [Handled.mk call kept] }.goto none
      (.sent call)) := by
  set u : SendThreads T := { s with conn := c', handled := s.handled ++ [Handled.mk call kept] }
    with hu
  have huplaced : u.placed = (s.handled.map (·.call) ++ [call]) ++ queued s.pending := by
    rw [placed, hu, map_append]
    rfl
  -- nothing of the loop thread is queued, so the order of its calls is not disturbed
  have hplaced (t : Option T) : ofThread t u.placed = ofThread t s.placed ++ ofThread t [call] := by
    rw [huplaced, placed]
    simp only [ofThread_append, append_assoc]
    by_cases ht' : t = none
    · rw [ht', ofThread_eq_nil h.remote, nil_append, append_nil]
    · have hthread : call.thread = none :=
        h.ordered.thread_of_progress (t := none) (by rw [ht]; exact mem_singleton_self _)
      rw [ofThread_singleton_of_ne (hthread ▸ Ne.symm ht'), nil_append, append_nil]
  have hsubset : s.placed ⊆ u.placed := by
    rw [huplaced, placed]
    exact append_subset.mpr ⟨subset_append_of_subset_left _
      (subset_append_left _ _), subset_append_right _ _⟩
  have hmem : call ∈ u.placed := by
    rw [huplaced]
    simp
  have hnoted : u.Noted := h.noted.of_suffix suffix_rfl hsubset rfl rfl rfl
  exact ⟨hdeals.wf, h.stream_of_deals hdeals rfl, h.kept_of_deals hdeals,
    h.ordered.place ht rfl hplaced, h.remote,
    hnoted.goto (cons_subset.mpr ⟨hmem, nil_subset _⟩) (nil_subset _)⟩

theorem Sound.queueSend (h : Sound s) {t : T} (ht : s.pc (some t) = .sending call) :
    Sound ((s.queueInLoop (.sendInLoop call)).goto (some t) (.sent call)) := by
  have hprogress : call ∈ (s.pc (some t)).progress := by
    rw [ht]
    exact mem_singleton_self _
  have hplaced : (s.queueInLoop (.sendInLoop call)).placed = s.placed ++ [call] :=
    placed_queueInLoop _
  refine ⟨h.wf, h.stream, h.kept, h.ordered.place ht rfl fun t' ↦ ?_, fun call' hcall ↦ ?_, ?_⟩
  · exact (congrArg (ofThread t') hplaced).trans (ofThread_append ..)
  · change call' ∈ queued (s.pending ++ [.sendInLoop call]) at hcall
    rw [queued_append] at hcall
    rcases mem_append.mp hcall with hcall | hcall
    · exact h.remote call' hcall
    · rw [mem_singleton.mp hcall, h.ordered.thread_of_progress hprogress]
      exact Option.some_ne_none t
  · refine (h.noted.queueInLoop (nil_subset _) fun call' hsends ↦ ?_).goto ?_
      (nil_subset _)
    · cases hsends
      exact h.ordered.not_placed hprogress
    · rw [hplaced]
      exact subset_append_right _ _

/-- A `send` returns. What it sent has been handed over before. -/
theorem Noted.endSend (h : s.Noted) {t : Option T} (ht : s.pc t = .sent call) :
    ({ s with returned := s.returned ++ [call] }.goto t .idle).Noted := by
  have hcall : call ∈ s.placed := h.finished t (by rw [ht]; exact mem_singleton_self _)
  have hgrow : s.returned ⊆ s.returned ++ [call] := subset_append_left _ _
  have hnoted : Noted { s with returned := s.returned ++ [call] } :=
    ⟨h.finished,
      append_subset.mpr ⟨h.returned, cons_subset.mpr ⟨hcall, nil_subset _⟩⟩,
      List.Subset.trans h.owed hgrow, fun t ↦ List.Subset.trans (h.before t) hgrow,
      fun q hq ↦ List.Subset.trans (Noted.queued h q hq) hgrow, h.fifo⟩
  exact hnoted.goto (nil_subset _) (nil_subset _)

/-- A thread queues something else than a message. -/
theorem Sound.queue (h : Sound s) {t : Option T} (hp : (s.pc t).progress = [])
    (hq : q.sends = none) (hbefore : q.before ⊆ (s.pc t).before) :
    Sound ((s.queueInLoop q).goto t .idle) := by
  have hplaced : (s.queueInLoop q).placed = s.placed := by
    rw [placed_queueInLoop, hq]
    exact append_nil _
  have hqueued : queued (s.pending ++ [q]) = queued s.pending := by
    rw [queued_append, hq]
    exact append_nil _
  refine ⟨h.wf, h.stream, h.kept, ?_, ?_, ?_⟩
  · have hordered : Ordered s.sends (s.queueInLoop q).placed s.pc := hplaced ▸ h.ordered
    exact hordered.hop hp.symm
  · change ∀ call ∈ queued (s.pending ++ [q]), call.thread ≠ none
    rw [hqueued]
    exact h.remote
  · refine (h.noted.queueInLoop (List.Subset.trans hbefore (h.noted.before t))
      fun call hsends ↦ ?_).goto (nil_subset _) (nil_subset _)
    rw [hq] at hsends
    cases hsends

/-- The loop runs a queued `sendInLoop`. The message changes hands, and is not handed over again. -/
theorem Sound.functorSend (h : Sound s)
    {c' : TcpConnection} {kept : Bool} (hpending : s.pending = .sendInLoop call :: pending)
    (hdeals : Deals s.conn c' call.message.1 kept) :
    Sound { s with conn := c', pending := pending, handled := s.handled ++ [⟨call, kept⟩] } := by
  have hplaced : (s.handled ++ [Handled.mk call kept]).map (·.call) ++ queued pending =
      s.placed := by
    rw [placed, hpending, map_append, append_assoc]
    rfl
  refine ⟨hdeals.wf, h.stream_of_deals hdeals rfl, h.kept_of_deals hdeals, ?_,
    fun call' hcall ↦ h.remote call' ?_, ?_⟩
  · have hordered := h.ordered
    rwa [← hplaced] at hordered
  · rw [hpending]
    exact mem_cons_of_mem _ hcall
  · refine h.noted.of_suffix ⟨[_], hpending.symm⟩ ?_ rfl rfl rfl
    rw [← hplaced]
    exact List.Subset.refl _

theorem Sound.functor (h : Sound s)
    {c' : TcpConnection} {n : ℕ} (hpending : s.pending = q :: pending) (hq : q.sends = none)
    (hmoves : s.conn.Moves c' n) : Sound ({ s with pending := pending }.after c') := by
  have hqueued : SendThreads.queued pending = SendThreads.queued s.pending := by
    rw [hpending, queued_cons_of_none hq]
  have hplaced : ({ s with pending := pending }.after c').placed = s.placed :=
    congrArg (s.handled.map (·.call) ++ ·) hqueued
  refine ⟨hmoves.wf, hmoves.stream.trans h.stream, fun hc ↦ h.kept (hmoves.connected hc), ?_, ?_,
    ?_⟩
  · have hordered := h.ordered
    rwa [← hplaced] at hordered
  · change ∀ call ∈ SendThreads.queued pending, call.thread ≠ none
    rw [hqueued]
    exact h.remote
  · refine h.noted.of_suffix ⟨[_], hpending.symm⟩ ?_ rfl rfl rfl
    rw [hplaced]
    exact List.Subset.refl _

/-- **Every action keeps the invariant.** -/
theorem Sound.step {a : Action T} (h : Sound s) (hs : SendThreads.step s a = .ok s') :
    Sound s' := by
  cases step_cases h.wf hs with
  | @send t m ht hc =>
    refine ⟨h.wf, h.stream, h.kept, h.ordered.send ht m, h.remote, ?_⟩
    have hnoted : Noted { s with sends := s.sends ++ [SendCall.mk s.sends.length t m] } :=
      h.noted.of_suffix suffix_rfl (List.Subset.refl _) rfl rfl rfl
    exact hnoted.goto (nil_subset _) (nil_subset _)
  | @shutdown t ht =>
    refine ⟨h.wf, h.stream, h.kept, h.ordered.hop (by rw [ht]; rfl), h.remote, ?_⟩
    have hnoted : Noted { s with owed := s.owed ++ s.returned } :=
      ⟨h.noted.finished, h.noted.returned,
        append_subset.mpr ⟨h.noted.owed, List.Subset.refl _⟩, h.noted.before, h.noted.queued,
        h.noted.fifo⟩
    exact hnoted.goto (nil_subset _) (List.Subset.refl _)
  | sendInLoop ht hdeals => exact h.sendInLoop ht hdeals
  | queueSend ht => exact h.queueSend ht
  | endSend ht =>
    exact ⟨h.wf, h.stream, h.kept, h.ordered.hop (by rw [ht]; rfl), h.remote, h.noted.endSend ht⟩
  | queue hp hq hbefore => exact h.queue hp hq hbefore
  | functorSend hpending hdeals => exact h.functorSend hpending hdeals
  | functor hpending hq hmoves => exact h.functor hpending hq hmoves
  | @move _ t p c' hmoves hp hfinished hbefore =>
    refine ⟨hmoves.wf, hmoves.stream.trans h.stream, fun hc ↦ h.kept (hmoves.connected hc),
      h.ordered.hop hp, h.remote, ?_⟩
    have hnoted : Noted (s.after c') :=
      h.noted.of_suffix suffix_rfl (List.Subset.refl _) rfl rfl rfl
    exact hnoted.goto (List.Subset.trans hfinished (h.noted.finished t))
      (List.Subset.trans hbefore (h.noted.before t))

theorem start_sound {poller : PollerKind} {wcc hcb : Bool} {mark : ℕ}
    (hs : start poller wcc hcb mark = .ok s) : Sound s ∧ s.halfCloses = [] := by
  obtain ⟨c, hc, hwf, hstate, -, -, hcontent, htrace⟩ := new_spec poller wcc hcb mark
  obtain ⟨ch, heq, hl, -⟩ := connectEstablished_eq hwf hstate []
  rw [start, bind_of_ok hc, heq] at hs
  cases hs
  refine ⟨⟨⟨hwf.buffer, hl.tracked.consistent⟩, ?_, fun _ h hh ↦ ?_,
    ⟨nodup_nil, ?_, fun _ ↦ rfl⟩,
    ?_, ⟨fun _ ↦ nil_subset _, nil_subset _, nil_subset _, fun _ ↦ nil_subset _,
      ?_, List.Pairwise.nil⟩⟩, rfl⟩
  · rw [TcpConnection.stream, emits_trace, htrace]
    exact hcontent
  · cases hh
  all_goals
    intro _ hmem
    cases hmem

/-! ## Per-thread order -/

/-- **Messages are atomic, and each thread's are in order.** While the connection is `kConnected`,
its stream is made up of whole messages, none of them twice, and those of each thread are the first
messages it has sent, in order. -/
theorem sends_in_order {poller : PollerKind} {wcc hcb : Bool} {mark : ℕ} {s₀ s : SendThreads T}
    {as : List (Action T)} (hstart : start poller wcc hcb mark = .ok s₀)
    (hrun : runAll step s₀ as = .ok s) (hconnected : s.conn.state = .kConnected) :
    s.conn.stream = bytes s.taken ∧ s.taken.Nodup ∧
      ∀ t, ofThread t s.taken <+: ofThread t s.sends := by
  have h : Sound s :=
    runAll_invariant (fun _ _ _ hs hstep ↦ Sound.step hs hstep) (start_sound hstart).1 hrun
  have htaken := taken_eq_of_kept (h.kept hconnected)
  have hplaced : s.placed = s.taken ++ queued s.pending := by rw [htaken, placed]
  refine ⟨h.stream, ?_, fun t ↦ ?_⟩
  · have hnodup := h.ordered.nodup_placed
    rw [hplaced] at hnodup
    exact (nodup_append.mp hnodup).1
  · rw [h.ordered.order t, hplaced, ofThread_append, append_assoc]
    exact prefix_append _ _

/-- Two threads send, and the loop thread does so while a message waits in the queue and another one
in `outputBuffer_`. -/
def mixedSends : List (Action Unit) :=
  [.send none ⟨[1, 2, 3], by decide⟩, .advance none ⟨.accepted 2, rfl⟩,
    .advance none ⟨.accepted 0, rfl⟩,
    .send (some ()) ⟨[4, 5], by decide⟩, .advance (some ()) ⟨.accepted 0, rfl⟩,
    .send none ⟨[6], by decide⟩, .advance none ⟨.accepted 1, rfl⟩, .advance none ⟨.accepted 0, rfl⟩,
    .functor ⟨.accepted 2, rfl⟩, .handleWrite (.accepted 3)]

theorem sends_in_order_mixed :
    ∃ s₀ s : SendThreads Unit, start .epoll false false 64 = .ok s₀ ∧
      runAll step s₀ mixedSends = .ok s ∧ s.conn.state = .kConnected ∧
      s.conn.stream = [1, 2, 3, 6, 4, 5] ∧ s.taken.Nodup ∧
      ∀ t, ofThread t s.taken <+: ofThread t s.sends := by
  have hmap : (attempt True (start .epoll false false 64) >>= fun s₀ : SendThreads Unit ↦
      runAll step s₀ mixedSends).map (fun s ↦ (s.conn.state, s.conn.stream)) =
      .ok (.kConnected, [1, 2, 3, 6, 4, 5]) := by
    decide +kernel
  obtain ⟨s, hs, hobs⟩ := map_eq_ok.mp hmap
  obtain ⟨s₀, hs₀, hrun⟩ := bind_eq_ok.mp hs
  obtain ⟨hstate, hstream⟩ := Prod.mk.inj hobs
  have hstart := (attempt_eq_ok.mp hs₀).2
  exact ⟨s₀, s, hstart, hrun, hstate, hstream, (sends_in_order hstart hrun hstate).2⟩

/-! ## Half-closing -/

/-- At the `shutdownWrite()` the stream held the messages taken, and all that returned before some
`shutdown` were among them. -/
def HalfClose.Complete (h : HalfClose T) : Prop := h.stream = bytes h.taken ∧ h.owed ⊆ h.taken

/-- The `send`s that returned before the `shutdown` whose call the loop takes from the queue. -/
def ownBefore (s : SendThreads T) : Action T → List (SendCall T)
  | .functor _ => (s.pending.head?.map (·.before)).getD []
  | _ => []

/-- A half-close does not overtake a message. Of the `send`s that returned before some `shutdown`,
none has been given up, and none is waiting in the queue. The queue itself takes care of those that
returned before the `shutdown` that is carried out from it. -/
def KeepsOwed (s : SendThreads T) (a : Action T) : Prop :=
  s.HalfCloses a = true →
    ∀ call ∈ s.owed, call ∉ s.dropped ∧ (call ∈ queued s.pending → call ∈ s.ownBefore a)

instance (s : SendThreads T) (a : Action T) : Decidable (s.KeepsOwed a) :=
  inferInstanceAs (Decidable (_ → _))

omit [DecidableEq T] in
theorem after_halfCloses {c' : TcpConnection} {b : Bool} (h : s.conn.Moves c' b.toNat) :
    (s.after c').halfCloses =
      if b then s.halfCloses ++ [⟨s.owed, s.taken, s.conn.stream⟩] else s.halfCloses := by
  rw [after, h.shutdownWrites]
  cases b <;> simp

theorem step_halfCloses {a : Action T} (hwf : s.conn.Wf) (hs : s.step a = .ok s') :
    s'.halfCloses = if s.HalfCloses a then s.halfCloses ++ [⟨s.owed, s.taken, s.conn.stream⟩]
      else s.halfCloses := by
  cases step_cases hwf hs with
  | send ht hc => rfl
  | shutdown ht => rfl
  | sendInLoop ht hdeals =>
    rw [halfCloses_advance_eq_false fun before h ↦ by rw [ht] at h; cases h]
    rfl
  | queueSend ht => rfl
  | endSend ht =>
    rw [halfCloses_advance_eq_false fun before h ↦ by rw [ht] at h; cases h]
    rfl
  | queue hp hq hbefore hhalf =>
    rw [hhalf]
    rfl
  | functorSend hpending hdeals =>
    rw [show s.HalfCloses _ = false by simp only [HalfCloses, hpending]]
    rfl
  | functor hpending hq hmoves => exact after_halfCloses hmoves
  | move hmoves hp hfinished hbefore => exact after_halfCloses hmoves

theorem step_of_halfCloses {a : Action T} (hwf : s.conn.Wf) (h : s.HalfCloses a = true) :
    ∃ s', s.step a = .ok s' := by
  cases a with
  | advance t w =>
    cases t with
    | some t => cases h
    | none =>
      cases hpc : s.pc none with
      | shutDown before => exact ⟨_, by simp only [step, advance, hpc]; rfl⟩
      | _ => simp [HalfCloses, hpc] at h
  | functor w =>
    cases hpending : s.pending with
    | nil => simp [HalfCloses, hpending] at h
    | cons q pending =>
      cases q with
      | shutdownInLoop before =>
        simp only [HalfCloses, hpending, Bool.and_eq_true] at h
        refine ⟨{ s with pending := pending }.after s.conn.shutdownInLoop, ?_⟩
        simp only [step, functor, hpending]
        exact attempt_eq_ok.mpr ⟨h.1, rfl⟩
      | _ => simp [HalfCloses, hpending] at h
  | handleWrite w =>
    obtain ⟨c', hc', -⟩ := handleWrite_moves hwf w
    simp only [HalfCloses, Bool.and_eq_true] at h
    exact ⟨s.after c', attempt_eq_ok.mpr ⟨h.1, bind_of_ok hc' _⟩⟩
  | _ => cases h

/-- A message is taken, given up or waiting, and only one of them. -/
theorem Sound.not_taken (h : Sound s)
    (hcall : call ∈ s.dropped ∨ call ∈ queued s.pending) : call ∉ s.taken := by
  intro htaken
  have htaken := mem_taken.mp htaken
  have hnodup := h.ordered.nodup_placed
  rw [placed, nodup_append] at hnodup
  rcases hcall with hdropped | hqueued
  · have heq := inj_on_of_nodup_map hnodup.1 htaken (mem_dropped.mp hdropped) rfl
    cases heq
  · exact hnodup.2.2 call (mem_map.mpr ⟨_, htaken, rfl⟩) call hqueued rfl

omit [DecidableEq T] in
/-- What returned before a `shutdown` that the loop takes from the queue is not behind it. -/
theorem Noted.not_queued (h : s.Noted) {a : Action T}
    (hhalf : s.HalfCloses a = true) (hcall : call ∈ s.ownBefore a) :
    call ∉ SendThreads.queued s.pending := by
  cases a with
  | functor w =>
    cases hpending : s.pending with
    | nil => simp [ownBefore, hpending] at hcall
    | cons q pending =>
      rw [ownBefore, hpending] at hcall
      have hq : q.sends = none := by
        cases q with
        | sendInLoop call => simp [HalfCloses, hpending] at hhalf
        | _ => rfl
      rw [queued_cons_of_none hq]
      intro hmem
      obtain ⟨q', hq', hsends⟩ := mem_queued.mp hmem
      have hfifo := h.fifo
      rw [hpending] at hfifo
      exact (pairwise_cons.mp hfifo).1 q' hq' call hcall hsends
  | _ => cases hcall

/-- **The exact condition for a graceful half-close.** Every `shutdownWrite()` finds the messages
whose `send` returned before a `shutdown` written or buffered, exactly if no half-close overtakes a
message that is queued and none follows one that was given up. -/
theorem halfCloses_complete_iff {poller : PollerKind} {wcc hcb : Bool} {mark : ℕ}
    {s₀ : SendThreads T} (hstart : start poller wcc hcb mark = .ok s₀) (as : List (Action T)) :
    (∀ pre, pre <+: as → ∀ s, runAll step s₀ pre = .ok s →
      ∀ h ∈ s.halfCloses, HalfClose.Complete h) ↔
      Along step KeepsOwed s₀ as := by
  refine along_iff_of_reached (I := fun s ↦ Sound s ∧ ∀ h ∈ s.halfCloses, HalfClose.Complete h)
    (A := fun _ _ ↦ True) (fun _ hs ↦ hs.2) ?_ ?_ ?_ (along_of_forall fun _ _ _ ↦ trivial)
  · rintro s a s' ⟨hsound, hcomplete⟩ - hkeeps hs
    refine ⟨hsound.step hs, ?_⟩
    rw [step_halfCloses hsound.wf hs]
    split
    next hhalf =>
      intro h hh
      rcases mem_append.mp hh with hh | hh
      · exact hcomplete h hh
      · rw [mem_singleton.mp hh]
        refine ⟨hsound.stream, fun call howed ↦ ?_⟩
        obtain ⟨hdropped, hqueued⟩ := hkeeps hhalf call howed
        rcases mem_placed.mp
          (hsound.noted.returned (hsound.noted.owed howed)) with htaken | hno | hno
        · exact htaken
        · exact absurd hno hdropped
        · exact absurd hno (hsound.noted.not_queued hhalf (hqueued hno))
    next => exact hcomplete
  · rintro s a ⟨hsound, hcomplete⟩ - hkeeps
    simp only [KeepsOwed, Classical.not_imp, not_forall] at hkeeps
    obtain ⟨hhalf, call, howed, hlost⟩ := hkeeps
    obtain ⟨s', hs'⟩ := step_of_halfCloses hsound.wf hhalf
    refine ⟨s', hs', fun hall ↦ ?_⟩
    rw [step_halfCloses hsound.wf hs', if_pos hhalf] at hall
    have hmem : call ∈ s.taken := (hall _ (mem_append_right _ mem_cons_self)).2 howed
    refine hsound.not_taken ?_ hmem
    rw [not_and_or, not_not, Classical.not_imp] at hlost
    exact hlost.imp_right And.left
  · obtain ⟨hsound, hnil⟩ := start_sound hstart
    refine ⟨hsound, ?_⟩
    rw [hnil]
    intro h hh
    cases hh

/-- A message of another thread waits in the queue when its `send` returns. -/
def sendFromThread : List (Action Unit) :=
  [.send (some ()) ⟨[1, 2], by decide⟩, .advance (some ()) ⟨.accepted 0, rfl⟩,
    .advance (some ()) ⟨.accepted 0, rfl⟩]

/-- The other thread shuts down, and the loop makes its two calls. -/
def shutdownFromThread : List (Action Unit) :=
  [.shutdown (some ()), .advance (some ()) ⟨.accepted 0, rfl⟩,
    .advance (some ()) ⟨.accepted 0, rfl⟩,
    .advance (some ()) ⟨.accepted 0, rfl⟩, .functor ⟨.accepted 2, rfl⟩, .functor ⟨.accepted 0, rfl⟩]

/-- The loop thread shuts down. -/
def shutdownInLoopThread : List (Action Unit) :=
  [.shutdown none, .advance none ⟨.accepted 0, rfl⟩, .advance none ⟨.accepted 0, rfl⟩,
    .advance none ⟨.accepted 0, rfl⟩]

/-- `send` and `shutdown` of one thread. -/
theorem halfCloses_complete_fromThread :
    ∃ s₀ s : SendThreads Unit, start .epoll false false 64 = .ok s₀ ∧
      runAll step s₀ (sendFromThread ++ shutdownFromThread) = .ok s ∧
      s.halfCloses.length = 1 ∧ ∀ h ∈ s.halfCloses, HalfClose.Complete h := by
  have hmap : (attempt True (start .epoll false false 64) >>= fun s₀ : SendThreads Unit ↦
      runAll step s₀ (sendFromThread ++ shutdownFromThread)).map (·.halfCloses.length) = .ok 1 := by
    decide +kernel
  have hkeeps : ∀ s₀ : SendThreads Unit, attempt True (start .epoll false false 64) = .ok s₀ →
      Along step KeepsOwed s₀ (sendFromThread ++ shutdownFromThread) := by
    decide +kernel
  obtain ⟨s, hs, hlength⟩ := map_eq_ok.mp hmap
  obtain ⟨s₀, hs₀, hrun⟩ := bind_eq_ok.mp hs
  have hstart := (attempt_eq_ok.mp hs₀).2
  exact ⟨s₀, s, hstart, hrun, hlength,
    (halfCloses_complete_iff hstart _).mpr (hkeeps s₀ hs₀) _ (prefix_refl _) s hrun⟩

/-- The loop thread's `shutdown` overtakes the message of the other thread: the connection is
half-closed with nothing of it written or buffered, though its `send` had returned. -/
theorem shutdown_overtakes_send :
    ∃ s₀ s : SendThreads Unit, start .epoll false false 64 = .ok s₀ ∧
      runAll step s₀ (sendFromThread ++ shutdownInLoopThread) = .ok s ∧
      s.halfCloses.map (fun h ↦ (h.owed.map (·.message.1), h.taken.map (·.message.1), h.stream)) =
        [([[1, 2]], [], [])] := by
  have hmap : (attempt True (start .epoll false false 64) >>= fun s₀ : SendThreads Unit ↦
      runAll step s₀ (sendFromThread ++ shutdownInLoopThread)).map (fun s ↦ s.halfCloses.map
        (fun h ↦ (h.owed.map (·.message.1), h.taken.map (·.message.1), h.stream))) =
      .ok [([[1, 2]], [], [])] := by
    decide +kernel
  obtain ⟨s, hs, hobs⟩ := map_eq_ok.mp hmap
  obtain ⟨s₀, hs₀, hrun⟩ := bind_eq_ok.mp hs
  exact ⟨s₀, s, (attempt_eq_ok.mp hs₀).2, hrun, hobs⟩

end SendThreads

end Fishnet
