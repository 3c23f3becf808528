import Fishnet.Net.ConnectionRun

/-!
# Closing once

How often can a connection be closed? `handleClose` asserts that the connection is open and leaves
it disconnected, so a second entry stops the process. A functor checks before it closes; a dispatch
does not, and acts on one value of `revents` throughout.

The main result gives the exact condition on the dispatches of a run. It covers every run of a
connected connection before it is destroyed: all public operations from any thread, queued functors,
timers and dispatches with any `revents` and any read results.
-/

namespace Fishnet

open TcpConnection Effect EventMask

/-- How often `closeCallback_` has been called. -/
def Effect.closeCount (es : List Effect) : ℕ :=
  es.countP fun e ↦ match e with
    | closeCallback => true
    | _ => false

theorem Effect.closeCount_append (es fs : List Effect) :
    closeCount (es ++ fs) = closeCount es + closeCount fs :=
  List.countP_append

/-- Only the entries that mark the life of the connection count. -/
theorem Effect.closeCount_eq_lifecycle (es : List Effect) :
    closeCount es = closeCount (lifecycle es) := by
  rw [closeCount, lifecycle, closeCount, List.countP_filter]
  congr 1
  funext e
  cases e <;> rfl

/-- An action other than the start and the end of the connection's life. -/
def Act.isOrdinary : Act → Bool
  | connectEstablished _ => false
  | connectDestroyed _ => false
  | _ => true

namespace LoopState

/-- What the action asks of the poller: a dispatch enters `handleClose` at most once, and only while
the connection is open. -/
def ClosesOnce (s : LoopState) : Act → Prop
  | .event revents env => s.conn.CloseOnce revents env.read
  | _ => True

end LoopState

namespace TcpConnection

/-- The close callback has been called exactly if the connection is disconnected. -/
structure Counted (c : TcpConnection) : Prop where
  wf : c.Wf
  started : c.state ≠ .kConnecting
  count : closeCount c.trace = (!c.state.isOpen).toNat

variable {c c' : TcpConnection}

theorem Counted.of_quiet (h : c.Counted) (hq : Quiet c c') : c'.Counted := by
  refine ⟨hq.wf, fun hc ↦ h.started (hq.connecting_iff.mp hc), ?_⟩
  rw [closeCount_eq_lifecycle, hq.lifecycle_eq, ← closeCount_eq_lifecycle, h.count, hq.isOpen]

theorem Counted.of_closes {ks : List Call} (h : c.Counted) (hopen : c.state.isOpen = true)
    (hcl : Closes c c' ks) : c'.Counted := by
  obtain ⟨es, hes, hlife⟩ := hcl.trace
  refine ⟨hcl.wf, by rw [hcl.state]; decide, ?_⟩
  have hone : closeCount es = 1 := by
    rw [closeCount_eq_lifecycle, hlife]
    rfl
  rw [hes, closeCount_append, h.count, hopen, hone, hcl.state]
  rfl

theorem Counted.handleEvent (h : c.Counted) {revents : EventMask} {env : Env}
    (honce : c.CloseOnce revents env.read) : Yields (c.handleEvent revents env) Counted :=
  handleEvent_rule h honce
    (fun _ hopen ↦ (handleClose_spec h.wf hopen _).imp fun _ ↦ h.of_closes hopen)
    (fun _ hd _ ↦ (messageCallback_spec hd.wf _).imp fun _ ↦ hd.of_quiet)
    (fun _ hd ↦ (handleWrite_spec hd.wf _).imp fun _ hdr ↦ hd.of_quiet hdr.busy.quiet)

end TcpConnection

namespace LoopState

variable {s : LoopState}

theorem connStep_counted (h : s.conn.Counted) {a : Act} (ha : a.isOrdinary = true)
    (honce : s.ClosesOnce a) : Yields (s.connStep a) Counted := by
  cases a with
  | call inLoop k => exact (call_spec h.wf inLoop k).imp fun _ ↦ h.of_quiet
  | functor env =>
    cases hp : s.pending with
    | nil =>
      rw [connStep_functor_nil hp]
      exact yields_ok h
    | cons f rest =>
      rw [connStep_functor_cons hp]
      refine (runFunctor_spec h.wf env f).imp fun c' hc' ↦ ?_
      rcases hc' with hq | ⟨hopen, hcl⟩
      · exact h.of_quiet hq
      · exact h.of_closes hopen hcl
  | event revents env => exact h.handleEvent honce
  | timer =>
    refine yields_pure ?_
    split
    · exact h
    · exact h.of_quiet (forceClose_quiet h.wf)
  | connectEstablished env => cases ha
  | connectDestroyed env => cases ha

theorem step_counted {a : Act} (h : s.conn.Counted) (ha : a.isOrdinary = true)
    (honce : s.ClosesOnce a) : Yields (s.step a) fun s' ↦ s'.conn.Counted :=
  (step_yields (connStep_counted h ha honce)).imp fun _ hs ↦ hs.1

theorem step_of_not_closesOnce {a : Act} (h : s.conn.Counted) (honce : ¬s.ClosesOnce a) :
    s.step a = .error .assertion := by
  cases a with
  | event revents env =>
    rw [step, connStep, handleEvent_of_not_closeOnce h.wf honce]
    rfl
  | _ => exact absurd trivial honce

/-- **Closing once.** From a connected connection, a run trips no assertion and calls the close
callback at most once exactly if each of its dispatches closes at most once, and only an open
connection. -/
theorem close_at_most_once_iff (s : LoopState) (hwf : s.conn.Wf)
    (hconn : s.conn.state = .kConnected)
    (hcount : closeCount s.conn.trace = 0) (acts : List Act)
    (hacts : ∀ a ∈ acts, a.isOrdinary = true) :
    (runAll step s acts ≠ .error .assertion ∧
      ∀ s', runAll step s acts = .ok s' → closeCount s'.conn.trace ≤ 1) ↔
    Along step ClosesOnce s acts := by
  have h : s.conn.Counted := ⟨hwf, by rw [hconn]; decide, by rw [hcount, hconn]; rfl⟩
  constructor
  · rintro ⟨hrun, -⟩
    refine along_of_runAll_ne (I := fun s ↦ s.conn.Counted) (Q := fun a ↦ a.isOrdinary = true)
      (fun s a s' ha hs honce hok ↦ (step_counted hs ha honce).of_eq_ok hok)
      (fun s a _ hs honce ↦ step_of_not_closesOnce hs honce) hacts h hrun
  · intro halong
    have hyields : Yields (runAll step s acts) fun s' ↦ s'.conn.Counted :=
      yields_runAll (fun _ _ hs ha ↦ step_counted hs ha.1 ha.2) h (along_and_of_forall hacts halong)
    refine ⟨hyields.ne_assertion, fun s' hs' ↦ ?_⟩
    rw [(hyields.of_eq_ok hs').count]
    exact Bool.toNat_le _

/-- A hang-up closes a connection once. -/
theorem close_at_most_once_hup :
    ∃ s, (new .epoll false false 0 >>= fun s ↦ s.step (.connectEstablished idleEnv)) = .ok s ∧
      runAll step s [.event POLLHUP idleEnv] ≠ .error .assertion := by
  obtain ⟨s, hs, hwf, hconn, -, -, htrace⟩ := established .epoll false false 0
  refine ⟨s, hs, ((close_at_most_once_iff s hwf hconn ?_ [.event POLLHUP idleEnv] ?_).mpr ?_).1⟩
  · rw [htrace]
    rfl
  · simp [Act.isOrdinary]
  · refine ⟨?_, fun _ _ ↦ trivial⟩
    rw [ClosesOnce, CloseOnce, hconn]
    decide

/-- `POLLHUP` with `POLLPRI` but without `POLLIN`, when the read finds the end of the stream, closes
twice. Both events are ones a connected channel can be reported for. -/
theorem closes_twice_hup_pri :
    ∃ s, (new .epoll false false 0 >>= fun s ↦ s.step (.connectEstablished idleEnv)) = .ok s ∧
      s.conn.channel.registration.watched = some (POLLIN ||| POLLPRI) ∧
      runAll step s [.event (POLLHUP ||| POLLPRI) idleEnv] = .error .assertion := by
  obtain ⟨s, hs, hwf, hconn, hwatched, -, -⟩ := established .epoll false false 0
  refine ⟨s, hs, hwatched, ?_⟩
  have hbad : ¬s.conn.CloseOnce (POLLHUP ||| POLLPRI) idleEnv.read := by
    rw [CloseOnce, hconn]
    decide
  rw [runAll, step, connStep, handleEvent_of_not_closeOnce hwf hbad]
  rfl

end LoopState

end Fishnet
