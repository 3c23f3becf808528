import Fishnet.Net.ConnectorSockets

/-!
# `stop` is final

There are two flags called `connect_`, one in the client and one in its connector. `stop` clears
both, and nothing but `connect` sets the one of the client again. The connector sets its own when it
is restarted, which the client asks for only if its own flag is set.

A timer that was set before, a functor that is still queued and a connection that is closed later
all find a flag cleared. So no socket is created after `stop` and none is handed over, until the
next `connect`.

## Atomic steps

Here a public call is one step, in whatever thread it is made. A call outside the loop thread is the
sequence of the small steps that `TcpClient` has for it.
-/

namespace Fishnet

open Function

/-! ## The connector when it is not to connect -/

namespace Connector

/-- The flag is still cleared, no socket was created and none was handed over. -/
structure Idles (c c' : Connector) : Prop where
  connectFlag : c'.connectFlag = false
  created : c'.created = c.created
  handed : c'.handed = c.handed

variable {c c' : Connector} {errno : Errno}

theorem idles_refl (h : c.connectFlag = false) : Idles c c := ⟨h, rfl, rfl⟩

theorem Idles.trans {c'' : Connector} (h : Idles c c') (h' : Idles c' c'') : Idles c c'' where
  connectFlag := h'.connectFlag
  created := h'.created.trans h.created
  handed := h'.handed.trans h.handed

variable (h : c.connectFlag = false)
include h

theorem idles_retry (fd : ℕ) : Idles c (c.retry fd) := by
  rw [retry, if_neg (by simp [h])]
  exact ⟨h, rfl, rfl⟩

theorem idles_startInLoop (hok : c.startInLoop errno = .ok c') : Idles c c' := by
  obtain ⟨-, hok⟩ := assert_bind_eq_ok.mp hok
  rw [if_neg (by simp [h])] at hok
  cases hok
  exact idles_refl h

theorem idles_removeAndResetChannel {fd : ℕ}
    (hok : c.removeAndResetChannel = .ok (fd, c')) : Idles c c' := by
  rw [removeAndResetChannel] at hok
  cases hchannel : c.channel with
  | none =>
    rw [hchannel] at hok
    cases hok
  | some x =>
    rw [hchannel] at hok
    obtain ⟨channel, -, hok⟩ := bind_eq_ok.mp hok
    obtain ⟨channel', -, hok⟩ := bind_eq_ok.mp hok
    cases hok
    exact ⟨h, rfl, rfl⟩

theorem idles_stopInLoop (hok : c.stopInLoop = .ok c') : Idles c c' := by
  rw [stopInLoop] at hok
  split_ifs at hok
  · obtain ⟨⟨fd, t⟩, ht, hok⟩ := bind_eq_ok.mp hok
    have hidles : Idles { c with state := .kDisconnected } t := idles_removeAndResetChannel h ht
    cases hok
    exact Idles.trans ⟨hidles.connectFlag, hidles.created, hidles.handed⟩
      (idles_retry hidles.connectFlag fd)
  · cases hok
    exact idles_refl h

theorem idles_resetChannel (hok : c.resetChannel = .ok c') : Idles c c' := by
  rw [resetChannel] at hok
  cases hchannel : c.channel with
  | none =>
    rw [hchannel] at hok
    cases hok
    exact idles_refl h
  | some x =>
    rw [hchannel] at hok
    obtain ⟨-, hok⟩ := assert_bind_eq_ok.mp hok
    obtain ⟨-, hok⟩ := assert_bind_eq_ok.mp hok
    cases hok
    exact ⟨h, rfl, rfl⟩

/-- A socket that has connected is closed. -/
theorem idles_handleWrite {soError : ℕ} {selfConnect : Bool}
    (hok : c.handleWrite soError selfConnect = .ok c') : Idles c c' := by
  rw [handleWrite] at hok
  by_cases hstate : c.state = .kConnecting
  · rw [if_pos hstate] at hok
    obtain ⟨⟨fd, t⟩, ht, hok⟩ := bind_eq_ok.mp hok
    have hidles := idles_removeAndResetChannel h ht
    have hretry := hidles.trans (idles_retry hidles.connectFlag fd)
    dsimp only at hok
    split_ifs at hok with _ _ hflag
    · cases hok
      exact hretry
    · cases hok
      exact hretry
    · rw [hidles.connectFlag] at hflag
      cases hflag
    · cases hok
      exact hidles.trans ⟨hidles.connectFlag, rfl, rfl⟩
  · rw [if_neg hstate] at hok
    obtain ⟨-, hok⟩ := assert_bind_eq_ok.mp hok
    cases hok
    exact idles_refl h

theorem idles_handleError (hok : c.handleError = .ok c') : Idles c c' := by
  rw [handleError] at hok
  split_ifs at hok
  · obtain ⟨⟨fd, t⟩, ht, hok⟩ := bind_eq_ok.mp hok
    have hidles := idles_removeAndResetChannel h ht
    cases hok
    exact hidles.trans (idles_retry hidles.connectFlag fd)
  · cases hok
    exact idles_refl h

theorem idles_handleEvent {revents : EventMask} {soError : ℕ}
    {selfConnect : Bool} (hok : c.handleEvent revents soError selfConnect = .ok c') :
    Idles c c' := by
  rw [handleEvent_eq] at hok
  obtain ⟨t, ht, hok⟩ := bind_eq_ok.mp hok
  have hidles : Idles c t := by
    split_ifs at ht
    · exact idles_handleError h ht
    · cases ht
      exact idles_refl h
  split_ifs at hok
  · exact hidles.trans (idles_handleWrite hidles.connectFlag hok)
  · cases hok
    exact hidles

end Connector

namespace TcpClient

open Connector

variable {T : Type}

variable {s s' : TcpClient T} {t : T} {errno : Errno}

/-! ## After `stop` -/

/-- Both flags are cleared. -/
structure Stopped (s : TcpClient T) : Prop where
  client : s.connectFlag = false
  connector : s.connector.connectFlag = false

/-- Both flags are still cleared, no socket was created and none was handed over. The connection is
the same or gone. -/
structure Rests (s s' : TcpClient T) : Prop where
  client : s'.connectFlag = false
  connector : s.connector.Idles s'.connector
  connection : s'.connection = s.connection ∨ s'.connection = none

theorem Rests.stopped (h : Rests s s') : Stopped s' := ⟨h.client, h.connector.connectFlag⟩

theorem Rests.trans {s'' : TcpClient T} (h : Rests s s') (h' : Rests s' s'') : Rests s s'' where
  client := h'.client
  connector := h.connector.trans h'.connector
  connection := by
    rcases h'.connection with heq | hnone
    · rw [heq]
      exact h.connection
    · exact Or.inr hnone

theorem rests_stop (s : TcpClient T) : Rests s s.stop := ⟨rfl, ⟨rfl, rfl, rfl⟩, Or.inl rfl⟩

section

variable (h : Stopped s)
include h

theorem Stopped.rests (hconnector : s.connector.Idles s'.connector)
    (hflag : s'.connectFlag = s.connectFlag := by rfl)
    (hconnection : s'.connection = s.connection := by rfl) : Rests s s' :=
  ⟨hflag.trans h.client, hconnector, Or.inl hconnection⟩

theorem Stopped.removeConnection (hok : s.removeConnection errno = .ok s') : Rests s s' := by
  rw [TcpClient.removeConnection, if_neg (by simp [h.client])] at hok
  cases hok
  exact ⟨h.client, idles_refl h.connector, Or.inr rfl⟩

theorem Stopped.runFunctor {f : LoopFunctor}
    (hok : s.runFunctor errno f = .ok s') : Rests s s' := by
  cases f with
  | startInLoop =>
    obtain ⟨c, hc, hok⟩ := bind_eq_ok.mp hok
    cases hok
    exact h.rests (idles_startInLoop h.connector hc)
  | stopInLoop =>
    obtain ⟨c, hc, hok⟩ := bind_eq_ok.mp hok
    cases hok
    exact h.rests (idles_stopInLoop h.connector hc)
  | resetChannel =>
    obtain ⟨c, hc, hok⟩ := bind_eq_ok.mp hok
    cases hok
    exact h.rests (idles_resetChannel h.connector hc)
  | forceCloseInLoop fd =>
    rw [TcpClient.runFunctor] at hok
    split_ifs at hok
    · exact h.removeConnection hok
    · cases hok
      exact h.rests (idles_refl h.connector)

theorem Stopped.call (hok : s.call errno = .ok s') : Rests s s' := by
  rw [TcpClient.call] at hok
  cases hfunctors : s.functors with
  | nil =>
    rw [hfunctors] at hok
    cases hok
  | cons f functors =>
    rw [hfunctors] at hok
    have hrests := Stopped.runFunctor (s := { s with functors := functors }) ⟨h.client, h.connector⟩
      hok
    exact ⟨hrests.client, hrests.connector, hrests.connection⟩

theorem Stopped.handleEvent {revents : EventMask} {soError : ℕ}
    {selfConnect : Bool} (hok : s.handleEvent revents soError selfConnect = .ok s') :
    Rests s s' := by
  obtain ⟨c, hc, hok⟩ := bind_eq_ok.mp hok
  cases hok
  have hidles := idles_handleEvent h.connector hc
  -- no further socket, so `newConnection` is not called
  have hnew : s.newConnection c = { s with connector := c } := by
    rw [newConnection, hidles.handed, List.drop_length]
  rw [hnew]
  exact h.rests hidles

theorem Stopped.timer {i : ℕ} (hok : s.timer i errno = .ok s') : Rests s s' := by
  obtain ⟨c, hc, hok⟩ := bind_eq_ok.mp hok
  cases hok
  have hidles : Connector.Idles { s.connector with timers := s.connector.timers.eraseIdx i } c :=
    idles_startInLoop h.connector hc
  exact h.rests ⟨hidles.connectFlag, hidles.created, hidles.handed⟩

end

/-! ## Atomic steps -/

/-- The action is a public call in the loop thread or a callback of the loop. -/
def Action.isWhole : Action T → Bool
  | .enter _ _ | .advance _ | .restart _ => false
  | _ => true

/-- A public call or a callback of the loop. -/
inductive AtomicStep (T : Type) where
  | inLoop (a : Action T) (ha : a.isWhole)
  /-- A call in another thread. -/
  | remote (t : T) (call : ClientCall)

namespace AtomicStep

/-- The actions that the step consists of. -/
def actions : AtomicStep T → List (Action T)
  | inLoop a _ => [a]
  | remote t call => .enter t call :: List.replicate call.steps.length (.advance t)

def isStop : AtomicStep T → Bool
  | inLoop .stop _ | remote _ .stop => true
  | _ => false

def isConnect : AtomicStep T → Bool
  | inLoop (.connect _) _ | remote _ .connect => true
  | _ => false

end AtomicStep

variable [DecidableEq T]

def atomically (s : TcpClient T) (x : AtomicStep T) : Except Halt (TcpClient T) :=
  runAll step s x.actions

/-- A thread executes the steps of a call without interruption. -/
theorem runAll_advance (hidle : s.caller t = []) (steps : List CallStep) :
    runAll step { s with caller := update s.caller t steps }
      (List.replicate steps.length (.advance t)) = .ok (steps.foldl runCallStep s) := by
  induction steps generalizing s with
  | nil =>
    rw [← hidle, update_eq_self, hidle]
    rfl
  | cons x steps ih =>
    have hstep : step { s with caller := update s.caller t (x :: steps) } (.advance t) =
        .ok { s.runCallStep x with
          caller := update (s.runCallStep x).caller t steps } := by
      cases x <;> simp [step, runCallStep]
    have hidle' : (s.runCallStep x).caller t = [] := by
      cases x <;> exact hidle
    rw [List.length_cons, List.replicate_succ, runAll, hstep, ok_bind, ih hidle',
      List.foldl_cons]

theorem atomically_remote {call : ClientCall} (h : s.atomically (.remote t call) = .ok s') :
    s' = call.steps.foldl runCallStep s := by
  obtain ⟨s₁, henter, hrest⟩ := runAll_cons_eq_ok.mp h
  obtain ⟨hidle, rfl⟩ := guarded_eq_ok.mp henter
  rw [runAll_advance hidle] at hrest
  exact (Except.ok.inj hrest).symm

theorem atomically_inLoop {a : Action T} {ha : a.isWhole}
    (h : s.atomically (.inLoop a ha) = .ok s') : s.step a = .ok s' := by
  obtain ⟨s₁, hstep, hrest⟩ := runAll_cons_eq_ok.mp h
  cases hrest
  exact hstep

section

variable (h : Stopped s)
include h

theorem Stopped.step {a : Action T} (hwhole : a.isWhole)
    (hconnect : ∀ errno, a ≠ .connect errno) (hok : s.step a = .ok s') : Rests s s' := by
  have hsame := idles_refl h.connector
  cases a with
  | connect errno => exact absurd rfl (hconnect errno)
  | stop =>
    obtain ⟨-, rfl⟩ := guarded_eq_ok.mp hok
    exact rests_stop s
  | disconnect =>
    obtain ⟨-, rfl⟩ := guarded_eq_ok.mp hok
    exact ⟨rfl, hsame, Or.inl rfl⟩
  | enableRetry =>
    obtain ⟨-, rfl⟩ := guarded_eq_ok.mp hok
    exact h.rests hsame
  | enter t call => cases hwhole
  | advance t => cases hwhole
  | poll active =>
    obtain ⟨-, rfl⟩ := guarded_eq_ok.mp hok
    exact h.rests hsame
  | handleEvent revents soError selfConnect => exact h.handleEvent (attempt_eq_ok.mp hok).2
  | timer i errno => exact h.timer (attempt_eq_ok.mp hok).2
  | closeEvent errno => exact h.removeConnection (attempt_eq_ok.mp hok).2
  | forceClose fd =>
    obtain ⟨-, rfl⟩ := guarded_eq_ok.mp hok
    exact h.rests ⟨h.connector, rfl, rfl⟩
  | swap =>
    obtain ⟨-, rfl⟩ := guarded_eq_ok.mp hok
    exact h.rests ⟨h.connector, rfl, rfl⟩
  | call errno => exact h.call (attempt_eq_ok.mp hok).2
  | restart errno => cases hwhole

theorem Stopped.atomically {x : AtomicStep T} (hx : x.isConnect = false)
    (hok : s.atomically x = .ok s') : Rests s s' := by
  cases x with
  | inLoop a ha =>
    refine h.step ha ?_ (atomically_inLoop hok)
    rintro errno rfl
    cases hx
  | remote t call =>
    obtain rfl := atomically_remote hok
    cases call with
    | connect => cases hx
    | stop => exact ⟨rfl, ⟨rfl, rfl, rfl⟩, Or.inl rfl⟩
    | disconnect => exact ⟨rfl, ⟨h.connector, rfl, rfl⟩, Or.inl rfl⟩

end

/-- `stop` clears both flags, in whatever thread it is called. -/
theorem rests_of_isStop {x : AtomicStep T} (hx : x.isStop) (hok : s.atomically x = .ok s') :
    Rests s s' := by
  cases x with
  | inLoop a ha =>
    cases a with
    | stop =>
      obtain ⟨-, rfl⟩ := guarded_eq_ok.mp (atomically_inLoop hok)
      exact rests_stop s
    | _ => cases hx
  | remote t call =>
    obtain rfl := atomically_remote hok
    cases call with
    | stop => exact ⟨rfl, ⟨rfl, rfl, rfl⟩, Or.inl rfl⟩
    | _ => cases hx

/-- **`stop` is final.** Whatever state the client is in, and in particular whatever public calls
and callbacks of the loop have led there: after `stop`, in whatever thread, and up to the next
`connect`, no socket is created and none is passed to `newConnection`. -/
theorem stop_is_final {s s₁ s₂ : TcpClient T} {stop : AtomicStep T} {after : List (AtomicStep T)}
    (hstop : stop.isStop) (hok : s.atomically stop = .ok s₁)
    (hafter : ∀ x ∈ after, x.isConnect = false) (hrun : runAll atomically s₁ after = .ok s₂) :
    s₂.connector.created = s.connector.created ∧ s₂.connector.handed = s.connector.handed ∧
      (s₂.connection = s.connection ∨ s₂.connection = none) := by
  have hrests : Rests s s₂ := by
    refine runAll_induct (P := fun _ x ↦ x.isConnect = false) ?_ (rests_of_isStop hstop hok)
      (along_of_forall fun _ ↦ hafter) hrun
    intro s₁ x s₂ hrests hx hok
    exact hrests.trans (hrests.stopped.atomically hx hok)
  exact ⟨hrests.connector.created, hrests.connector.handed, hrests.connection⟩

/-- An attempt has failed and has set a timer, when another thread calls `stop`. The timer fires and
the queued functor runs. -/
theorem stop_is_final_timer :
    ∃ s s₁ s₂ : TcpClient Unit,
      runAll atomically (new .poll) [.inLoop (.connect .ECONNREFUSED) rfl] = .ok s ∧
      s.atomically (.remote () .stop) = .ok s₁ ∧
      runAll atomically s₁ [.inLoop (.timer 0 .success) rfl, .inLoop .swap rfl,
        .inLoop (.call .success) rfl] = .ok s₂ ∧
      s.connector.created = 1 ∧ s₂.connector.created = 1 := by
  have hrun : (runAll atomically (new .poll : TcpClient Unit)
      [.inLoop (.connect .ECONNREFUSED) rfl]).map (fun s ↦ s.connector.created) = .ok 1 := by
    decide +kernel
  have hall : (runAll atomically (new .poll : TcpClient Unit)
      [.inLoop (.connect .ECONNREFUSED) rfl, .remote () .stop, .inLoop (.timer 0 .success) rfl,
        .inLoop .swap rfl, .inLoop (.call .success) rfl]).map (fun _ ↦ ()) = .ok () := by
    decide +kernel
  obtain ⟨s, hs, hcreated⟩ := map_eq_ok.mp hrun
  obtain ⟨s₂, hall, -⟩ := map_eq_ok.mp hall
  obtain ⟨t, ht, hrest⟩ := runAll_cons_eq_ok.mp hall
  obtain ⟨s₁, hs₁, hs₂⟩ := runAll_cons_eq_ok.mp hrest
  obtain rfl : s = t := by
    obtain ⟨u, hu, hnil⟩ := runAll_cons_eq_ok.mp hs
    cases hnil
    exact Except.ok.inj (hu.symm.trans ht)
  obtain ⟨hfinal, -⟩ := stop_is_final rfl hs₁ (by decide) hs₂
  exact ⟨s, s₁, s₂, hs, hs₁, hs₂, hcreated, hfinal.trans hcreated⟩

end TcpClient

end Fishnet
