import Fishnet.Base.AsyncLoggingStream

/-!
# What `stop` leaves behind

`stop` clears `running_`, notifies the back end and waits for it to exit. The back end tests
`running_` only between two rounds. If it is on its way to the critical section when `stop` is
called, this last round still collects everything. If it has left the critical section, or has not
tested `running_` yet, no round follows, and what `append` has put into the buffers since is never
written.

The result says exactly this: the lines appended before `stop` are in the log file if and only if
the back end was about to collect, or nothing was there to be collected.
-/

namespace Fishnet

open List

namespace AsyncLogging

variable {size : ℕ} {s s' : AsyncLogging size} {a : Action}

/-- The back end has found `running_` set and has not collected yet. -/
def AboutToCollect (s : AsyncLogging size) : Prop := s.pc = .entering ∨ s.pc = .waiting

instance (s : AsyncLogging size) : Decidable s.AboutToCollect :=
  inferInstanceAs (Decidable (_ ∨ _))

/-! ## What one action changes -/

theorem lines_prefix_of_step (h : s.step a = .ok s') : s.lines <+: s'.lines := by
  cases move_of_step h with
  | append line =>
    unfold AsyncLogging.append
    split_ifs <;> exact prefix_append _ _
  | _ => exact prefix_rfl

theorem flatten_taken_collectWith (hs : s.AboutToCollect) (fresh : FixedBuffer size) :
    (s.collectWith fresh).taken.flatten = s.taken.flatten ++ s.held := by
  have hpc : s.pc ≠ .collected := by
    rcases hs with hs | hs <;> rw [hs] <;> decide
  rw [taken_collectWith hpc, flatten_append, flatten_append, flatten_singleton, held,
    append_assoc]

/-- Only a round that begins its critical section collects, and then it collects everything. -/
theorem taken_step (h : s.step a = .ok s') :
    s'.taken = s.taken ∨ s.AboutToCollect ∧ s'.taken.flatten = s.taken.flatten ++ s.held := by
  cases move_of_step h with
  | append line =>
    unfold AsyncLogging.append
    split_ifs <;> exact .inl rfl
  | stop hpc => exact .inl rfl
  | start hpc | enter hpc | goOn hpc hrunning | exit hpc hrunning | wait hpc =>
    exact .inl (taken_congr (by rw [hpc]; decide) (by simp) rfl)
  | collect a hpc fresh hfresh =>
    exact .inr ⟨hpc, flatten_taken_collectWith hpc fresh⟩
  | checkOverload stamp hpc => exact .inl (taken_checked hpc stamp)
  | write hpc buffer hbuffer =>
    have hne : s.pc ≠ .collected := by rw [hpc]; decide
    exact .inl (taken_congr hne hne rfl)
  | recycle hpc hwritten b₁ b₂ v v' v'' h₁ h₂ =>
    exact .inl (taken_congr (by rw [hpc]; decide) (by simp) rfl)

/-- On its way to the critical section, the back end does nothing else. -/
theorem AboutToCollect.step (hs : s.AboutToCollect) (h : s.step a = .ok s') :
    s'.AboutToCollect ∨ s'.taken.flatten = s.taken.flatten ++ s.held := by
  have hpc_ne {pc : LoggingPc} (hpc : s.pc = pc) : pc = .entering ∨ pc = .waiting := hpc ▸ hs
  cases move_of_step h with
  | append line =>
    unfold AsyncLogging.append
    split_ifs <;> exact .inl hs
  | stop hpc => exact .inl hs
  | wait hpc => exact .inl (.inr rfl)
  | collect a hpc fresh hfresh =>
    exact .inr (flatten_taken_collectWith hpc fresh)
  | start hpc => exact absurd (hpc_ne hpc) (by decide)
  | enter hpc => exact absurd (hpc_ne hpc) (by decide)
  | goOn hpc hrunning => exact absurd (hpc_ne hpc) (by decide)
  | exit hpc hrunning => exact absurd (hpc_ne hpc) (by decide)
  | checkOverload stamp hpc => exact absurd (hpc_ne hpc) (by decide)
  | write hpc buffer hbuffer => exact absurd (hpc_ne hpc) (by decide)
  | recycle hpc hwritten b₁ b₂ v v' v'' h₁ h₂ => exact absurd (hpc_ne hpc) (by decide)

/-! ## After `stop` -/

/-- `stop` has been called. -/
structure Stopped (s : AsyncLogging size) : Prop where
  running : s.running = false
  created : s.pc ≠ .created
  starting : s.pc ≠ .starting

/-- Nothing sets `running_` again, and without it no new round begins. -/
theorem Stopped.step (hs : Stopped s) (h : s.step a = .ok s') :
    Stopped s' ∧ (s'.AboutToCollect → s.AboutToCollect) := by
  cases move_of_step h with
  | append line =>
    unfold AsyncLogging.append
    split_ifs <;> exact ⟨⟨hs.running, hs.created, hs.starting⟩, id⟩
  | start hpc => exact absurd hpc hs.created
  | enter hpc => exact absurd hpc hs.starting
  | goOn hpc hrunning =>
    rw [hs.running] at hrunning
    cases hrunning
  | stop hpc => exact ⟨⟨rfl, hs.created, hs.starting⟩, id⟩
  | exit hpc hrunning =>
    exact ⟨⟨hs.running, by simp, by simp⟩, fun hc ↦ by rcases hc with hc | hc <;> cases hc⟩
  | wait hpc => exact ⟨⟨hs.running, by simp, by simp⟩, fun _ ↦ .inl hpc⟩
  | collect a hpc fresh hfresh =>
    exact ⟨⟨hs.running, by simp [collectWith], by simp [collectWith]⟩, fun _ ↦ hpc⟩
  | checkOverload stamp hpc =>
    exact ⟨⟨hs.running, by simp [checked], by simp [checked]⟩,
      fun hc ↦ by rcases hc with hc | hc <;> cases hc⟩
  | write hpc buffer hbuffer => exact ⟨⟨hs.running, hs.created, hs.starting⟩, id⟩
  | recycle hpc hwritten b₁ b₂ v v' v'' h₁ h₂ =>
    exact ⟨⟨hs.running, by simp, by simp⟩, fun hc ↦ by rcases hc with hc | hc <;> cases hc⟩

theorem stopped_of_stop (h : s.step .stop = .ok s') :
    Stopped s' ∧ s'.pc = s.pc ∧ s'.taken = s.taken ∧ s'.lines = s.lines ∧ s'.held = s.held := by
  obtain ⟨⟨hcreated, hstarting⟩, rfl⟩ := guarded_eq_ok.mp h
  exact ⟨⟨rfl, hcreated, hstarting⟩, rfl, rfl, rfl, rfl⟩

/-- With no round on its way, nothing is collected any more. -/
theorem taken_run_of_stopped {actions : List Action} (hs : Stopped s) (hc : ¬s.AboutToCollect)
    (h : runAll AsyncLogging.step s actions = .ok s') : s'.taken = s.taken :=
  (runAll_invariant (I := fun t ↦ Stopped t ∧ ¬t.AboutToCollect ∧ t.taken = s.taken)
    (fun _ _ _ ⟨hstopped, hnot, htaken⟩ hstep ↦
      have ⟨hstopped', hback⟩ := hstopped.step hstep
      have htaken' := (taken_step hstep).resolve_right fun hcollect ↦ hnot hcollect.1
      ⟨hstopped', fun hc' ↦ hnot (hback hc'), htaken'.trans htaken⟩)
    ⟨hs, hc, rfl⟩ h).2.2

/-- What a run from `s₀` keeps until the round on its way has collected, and after that. -/
structure Flushing (s₀ s : AsyncLogging size) : Prop where
  pointers : Pointers s
  blocks : Blocks s
  lines : s₀.lines <+: s.lines
  taken : s.AboutToCollect ∨ s₀.lines.flatten <+: s.taken.flatten

theorem Flushing.step {s₀ : AsyncLogging size} (hs : Flushing s₀ s) (ha : a.Short size)
    (h : s.step a = .ok s') : Flushing s₀ s' where
  pointers := hs.pointers.step h
  blocks := hs.blocks.step hs.pointers ha h
  lines := hs.lines.trans (lines_prefix_of_step h)
  taken := by
    rcases hs.taken with hc | htaken
    · rcases hc.step h with hc' | hcollect
      · exact .inl hc'
      · right
        rw [hcollect, ← hs.blocks.flatten_lines]
        exact hs.lines.flatten
    · right
      rcases taken_step h with hsame | ⟨-, hcollect⟩
      · rwa [hsame]
      · rw [hcollect]
        exact htaken.trans (prefix_append _ _)

/-! ## The lines before `stop` -/

/-- At the end of `threadFunc`, the log file has what the rounds collected. -/
theorem output_eq_taken (hptr : Pointers s) (hstream : Stream s) (hexited : s.pc = .exited)
    (hfew : ∀ r ∈ s.rounds, r.buffers.length ≤ 25) : s.output = s.taken.flatten := by
  have hunwritten : s.unwritten = [] := unwritten_eq_nil (hptr.idle (by rw [hexited]; rfl))
  rw [← hstream.eq_taken hfew, hunwritten, flatten_nil, append_nil]

/-- **What `stop` leaves behind.** Let `stop` be called in the state `s₀`, and let the back end have
exited in `s`, without an overload on the way. Then all lines appended before `stop` are in the log
file exactly if the back end was between its test of `running_` and its critical section when `stop`
was called, or the buffers were empty. -/
theorem stop_flushes_iff {before after : List Action} {s₀ s₁ s : AsyncLogging size}
    (hbefore : runAll step new before = .ok s₀) (hstop : s₀.step .stop = .ok s₁)
    (hafter : runAll step s₁ after = .ok s) (hexited : s.pc = .exited)
    (hshort : ∀ a ∈ before ++ after, a.Short size)
    (hfew : ∀ r ∈ s.rounds, r.buffers.length ≤ 25) :
    s₀.lines.flatten <+: s.output ↔ s₀.AboutToCollect ∨ s₀.held = [] := by
  have hrun : runAll step new (before ++ .stop :: after) = .ok s :=
    runAll_append_eq_ok.mpr ⟨s₀, hbefore, runAll_cons_eq_ok.mpr ⟨s₁, hstop, hafter⟩⟩
  have hblocks := blocks_run (fun a ha ↦ hshort a (mem_append_left _ ha)) hbefore
  obtain ⟨hstopped, hpc, htaken, hlines, hheld⟩ := stopped_of_stop hstop
  rw [output_eq_taken (pointers_run hrun) (stream_run hrun) hexited hfew]
  by_cases hc : s₀.AboutToCollect
  · -- the last round collects everything
    have hptr₁ := (pointers_run hbefore).step hstop
    have hblocks₁ := hblocks.step (pointers_run hbefore) (a := .stop) trivial hstop
    have hflushing : Flushing s₀ s₁ :=
      ⟨hptr₁, hblocks₁, hlines ▸ prefix_rfl, .inl (by rwa [AboutToCollect, hpc])⟩
    have hend : Flushing s₀ s :=
      runAll_induct (P := fun _ a ↦ a.Short size) (fun _ _ _ hs ha h ↦ hs.step ha h) hflushing
        (along_of_forall fun _ a ha ↦ hshort a (mem_append_right _ ha)) hafter
    have hnot : ¬s.AboutToCollect := by
      rw [AboutToCollect, hexited]
      decide
    exact iff_of_true (hend.taken.resolve_left hnot) (.inl hc)
  · -- no round follows, so the log file ends where the buffers begin
    rw [or_iff_right hc]
    have hc₁ : ¬s₁.AboutToCollect := by rwa [AboutToCollect, hpc]
    rw [taken_run_of_stopped hstopped hc₁ hafter, htaken, hblocks.flatten_lines]
    constructor
    · intro hprefix
      have hlength := hprefix.length_le
      rw [length_append] at hlength
      exact eq_nil_of_length_eq_zero (by omega)
    · intro hnil
      rw [hnil, append_nil]

/-- A round that has collected nothing, while one line is appended behind it. -/
def appendLate : List Action := [.start, .enter, .test, .lock, .wake, .append [104, 10]]

/-- The rest of that round, and the test of `running_` after it. -/
def lastRound : List Action := [.checkOverload "", .write, .recycle, .test]

/-- The line appended after the critical section of the last round is lost. -/
theorem stop_loses_line : ∃ s₀ s₁ s : AsyncLogging kLargerBuffer,
    runAll step new appendLate = .ok s₀ ∧ s₀.step .stop = .ok s₁ ∧
      runAll step s₁ lastRound = .ok s ∧
    s.pc = .exited ∧ s₀.lines = [[104, 10]] ∧ s.output = [] ∧ ¬s₀.lines.flatten <+: s.output :=
  ⟨_, _, _, rfl, rfl, rfl, rfl, rfl, rfl, by decide⟩

/-- The same line, appended while the back end waits, is written. -/
theorem stop_flushes_waiting : ∃ s₀ s₁ s : AsyncLogging kLargerBuffer,
    runAll step new [.start, .enter, .test, .lock, .append [104, 10]] = .ok s₀ ∧
    s₀.step .stop = .ok s₁ ∧ runAll step s₁ (.wake :: lastRound) = .ok s ∧ s.pc = .exited ∧
    s₀.lines.flatten <+: s.output :=
  ⟨_, _, _, rfl, rfl, rfl, rfl,
    (@stop_flushes_iff kLargerBuffer [.start, .enter, .test, .lock, .append [104, 10]]
      (.wake :: lastRound) _ _ _ rfl rfl rfl rfl (by decide) (by decide)).mpr (.inl (.inr rfl))⟩

end AsyncLogging

end Fishnet
