import Fishnet.Net.ServerOrphans

/-!
# When the server is destroyed

The destructor walks over `connections_`. It leaves each connection either destroyed or with a
`connectDestroyed` in the queue of its loop. What can go wrong is decided by what the destructor
finds and by what happens before that functor runs, and the main result says exactly when nothing
does.

* A `removeConnectionInLoop` that is still queued refers to the server.
* A connection that is being shut down is not taken off the poller.
* A connection that closes later calls back into the server.
* A thread that leaves its loop too early drops the functor, and the connection with it.
-/

namespace Fishnet

open TcpConnection Effect Function List

/-! ## Functors between loops

A connection in the base loop is established as soon as it is accepted and removed as soon as it is
closed. So the destructor finds it established. -/

/-- A functor that one loop queues in another. -/
def Task.isRemote : Task → Bool
  | connectEstablished _ => true
  | removeConnectionInLoop _ => true
  | _ => false

namespace View

/-- The connection lives in `loop`, and functors between loops are queued only if that is not the
base loop. -/
structure Remote (loop : LoopId) (v : View) : Prop where
  loop_eq : v.conn.loop = loop
  tasks : ∀ ℓ, ∀ t ∈ v.tasks ℓ, t.isRemote = true → loop ≠ 0

variable {v v' : View} {loop : LoopId} {id : ConnId}

variable (h : v.Remote loop)
include h

theorem Remote.queue {t : Task} (ht : t.isRemote = true → loop ≠ 0)
    (ℓ₀ : LoopId) : (v.queue ℓ₀ t).Remote loop := by
  refine ⟨h.loop_eq, fun ℓ u hu hremote ↦ ?_⟩
  rcases mem_queue_tasks.mp hu with hu | ⟨-, rfl⟩
  · exact h.tasks ℓ u hu hremote
  · exact ht hremote

theorem Remote.pop (ℓ₀ : LoopId) : (v.pop ℓ₀).Remote loop :=
  ⟨h.loop_eq, fun ℓ u hu ↦ h.tasks ℓ u (mem_of_mem_pop_tasks hu)⟩

theorem Remote.mark (m : Mark) : (v.mark m).Remote loop :=
  ⟨h.loop_eq, h.tasks⟩

theorem Remote.removeConnectionInLoop (hok : v.removeConnectionInLoop id = .ok v') :
    v'.Remote loop := by
  obtain ⟨-, hok⟩ := assert_bind_eq_ok.mp hok
  cases hok
  have herased : { v.mark (.erased (if v.mapped.isSome then 1 else 0)) with mapped := none }.Remote
      loop := ⟨h.loop_eq, h.tasks⟩
  exact herased.queue (fun hremote ↦ by cases hremote) _

theorem Remote.applyEffect {e : Effect}
    (hok : View.applyEffect id loop v e = .ok v') : v'.Remote loop := by
  cases e with
  | queueInLoop f =>
    cases hok
    exact h.queue (fun hremote ↦ by cases hremote) loop
  | connectionCallback state =>
    cases hok
    exact h.mark _
  | closeCallback =>
    change v.removeConnection loop id = .ok v' at hok
    rw [removeConnection] at hok
    split at hok
    · exact h.removeConnectionInLoop hok
    next hne =>
      cases hok
      exact h.queue (fun _ ↦ hne) 0
  | _ =>
    cases hok
    exact h

theorem Remote.withConn {op : TcpConnection → Checked TcpConnection}
    (hok : v.withConn id op = .ok v') : v'.Remote loop := by
  obtain ⟨c, -, hrun⟩ := bind_eq_ok.mp hok
  rw [h.loop_eq] at hrun
  have hnow : { v with conn := { v.conn with conn := c } }.Remote loop := ⟨h.loop_eq, h.tasks⟩
  exact runAll_invariant (fun _ _ _ hw hw' ↦ hw.applyEffect hw') hnow hrun

end View

namespace TcpServer

/-- Functors between loops are queued only for connections of the I/O loops. -/
def RemoteOnly (s : TcpServer) : Prop := ∀ i v, s.view i = some v → v.Remote v.conn.loop

variable {cfg : ServerConfig} {s s' : TcpServer} {id : ConnId} {v : View} {loop : LoopId}

theorem Moves.remoteOnly (hm : Moves id s s' v) (h : s.RemoteOnly) (hv : v.Remote loop) :
    s'.RemoteOnly := by
  intro i w hw
  rcases eq_or_ne i id with rfl | hi
  · rw [hm.view] at hw
    cases hw
    rwa [hv.loop_eq]
  · rw [hm.others i hi] at hw
    exact h i w hw

theorem Focus.remoteOnly {f : TcpServer → Checked TcpServer} {g : View → Checked View}
    (hf : Focus id f g) {s₀ : TcpServer} (hs₀ : s₀.Distinct) (h : s₀.RemoteOnly)
    (hm : Moves id s₀ s v) (hg : ∀ v', g v = .ok v' → v'.Remote loop) (hok : f s = .ok s') :
    s'.RemoteOnly := by
  rcases hf s v (hm.distinct hs₀) hm.view with ⟨s'', v', hs'', hv', hm'⟩ | ⟨e, hs'', -⟩
  · rw [hok] at hs''
    cases hs''
    exact (hm.trans hm').remoteOnly h (hg v' hv')
  · rw [hok] at hs''
    cases hs''

theorem withConn_remoteOnly (hs : s.Distinct) (h : s.RemoteOnly)
    {op : TcpConnection → Checked TcpConnection} (hok : s.withConn id op = .ok s') :
    s'.RemoteOnly := by
  cases hv : s.view id with
  | none =>
    rw [view, Option.map_eq_none_iff] at hv
    rw [withConn_of_none hv] at hok
    cases hok
    exact h
  | some v =>
    have hremote := h id v hv
    exact (withConn_focus id op).remoteOnly hs h (Moves.refl hv)
      (fun _ ↦ hremote.withConn) hok

/-- A new connection has nothing queued but its `connectEstablished`. -/
theorem newConnection_remoteOnly (hinv : s.Inv cfg) (h : s.RemoteOnly) {env : Env}
    (hid : s.nextConnId < 2 ^ 31) (hok : s.newConnection cfg env = .ok s') : s'.RemoteOnly := by
  obtain ⟨s₁, r, hexcept, hview, hothers, -, -, heq⟩ := newConnection_fresh hinv hid
  have hfresh : View.Remote r.loop ⟨r, fun _ ↦ [], some s.nextConnId⟩ :=
    ⟨rfl, fun _ _ ht ↦ by cases ht⟩
  have h₁ : s₁.RemoteOnly := by
    intro i w hw
    rcases eq_or_ne i s.nextConnId with rfl | hi
    · rw [hview] at hw
      cases hw
      exact hfresh
    · rw [hothers i hi] at hw
      exact h i w hw
  rw [heq] at hok
  split at hok
  next =>
    exact (connectEstablished_focus _ env).remoteOnly hexcept.everywhere.distinct h₁
      (Moves.refl hview) (fun _ ↦ (hfresh.mark _).withConn) hok
  next hne =>
    cases hok
    exact (Moves.queueInLoop hview rfl r.loop).remoteOnly h₁ (hfresh.queue (fun _ ↦ hne) _)

theorem runTask_remoteOnly (hinv : s.Inv cfg) (h : s.RemoteOnly) {ℓ : LoopId} {t : Task}
    {rest : List Task} {env : Env} (hq : s.queues ℓ = t :: rest)
    (hok : { s with queues := update s.queues ℓ rest }.runTask env t = .ok s') :
    s'.RemoteOnly := by
  have hs : s.Distinct := hinv.distinct
  obtain ⟨v, hv⟩ := hinv.view_of_queued (t := t)
    (by rw [hq]; exact mem_cons_self)
  have hremote := (h t.id v hv).pop ℓ
  have hm := (Moves.pop hv hq rfl).2
  cases t with
  | connectEstablished id =>
    exact (connectEstablished_focus id env).remoteOnly hs h hm
      (fun _ ↦ (hremote.mark _).withConn) hok
  | functor id f =>
    exact (withConn_focus id fun c ↦ c.runFunctor env f).remoteOnly hs h hm
      (fun _ ↦ hremote.withConn) hok
  | removeConnectionInLoop id =>
    exact (removeConnectionInLoop_focus id).remoteOnly hs h hm
      (fun _ ↦ hremote.removeConnectionInLoop) hok
  | connectDestroyed id =>
    exact (connectDestroyed_focus id env).remoteOnly hs h hm
      (fun _ ↦ (hremote.mark _).withConn) hok

/-- One step keeps functors between loops where they belong. -/
theorem step_remoteOnly (hinv : s.Inv cfg) (h : s.RemoteOnly) {a : ServerAct} (ha : s.Assumed a)
    (hok : s.step cfg a = .ok s') : s'.RemoteOnly := by
  have hs : s.Distinct := hinv.distinct
  cases a with
  | accept env => exact newConnection_remoteOnly hinv h ha.2 hok
  | event id revents env =>
    obtain ⟨-, -, r, m, hr, -⟩ := ha
    obtain ⟨v, hv, rfl⟩ := view_of_conns hr
    have hremote := h id v hv
    exact (mark_focus (withConn_focus id _) .event).remoteOnly hs h (Moves.refl hv)
      (fun _ ↦ (hremote.mark _).withConn) hok
  | call id inLoop k =>
    rw [step] at hok
    exact withConn_remoteOnly hs h hok
  | functor ℓ env =>
    simp only [step] at hok
    split at hok
    next =>
      cases hok
      exact h
    next t rest hq => exact runTask_remoteOnly hinv h hq hok
  | timer id =>
    rw [step] at hok
    split at hok
    · cases hok
      exact h
    · set t : TcpServer := { s with delayed := update s.delayed id (s.delayed id - 1) }
      have ht : t.RemoteOnly := h
      exact withConn_remoteOnly (s := t) hs ht hok

end TcpServer

/-! ## The destructor -/

namespace Phase

theorem countP_isDestroyed_marks_eq (p : Phase) (n : ℕ) :
    (p.marks n).countP Mark.isDestroyed = (decide (p = .gone)).toNat := by
  have hevents : (List.replicate n Mark.event).countP Mark.isDestroyed = 0 := by
    simp [Mark.isDestroyed]
  cases p <;> simp [marks, history, Mark.isDestroyed, hevents]

/-- With `connectDestroyed` queued behind them, the functors of a connection in `connections_` are
those it is left with. -/
theorem update_tasks {p : Phase} (hp : p.isMapped = true) (id : ConnId) (loop : LoopId) :
    update (p.tasks id loop) loop (p.tasks id loop loop ++ [.connectDestroyed id])
      = p.orphanTasks id loop := by
  funext ℓ
  rcases eq_or_ne ℓ loop with rfl | hne
  · rw [update_self]
    cases p <;> simp [tasks, orphanTasks, ownTasks, isMapped] at hp ⊢
  · rw [update_of_ne hne]
    cases p <;> simp [tasks, orphanTasks, hne, isMapped] at hp ⊢

theorem tasks_eq_orphanTasks {p : Phase} (hp : p.isMapped = false) (id : ConnId) (loop : LoopId) :
    p.tasks id loop = p.orphanTasks id loop := by
  funext ℓ
  cases p <;> simp [tasks, orphanTasks, ownTasks, isMapped] at hp ⊢

end Phase

/-- Connection `id` is in `connections_`, and established if it lives in the base loop. -/
structure Held (id : ConnId) (v : View) (p : Phase) : Prop where
  mapped : p.isMapped = true
  account : Account id v p (p.tasks id v.conn.loop)
  established : v.conn.loop = 0 → p = .up

namespace AtPhase

variable {id : ConnId} {v : View} {p : Phase}

theorem account (h : AtPhase id v p) : Account id v p (p.tasks id v.conn.loop) := by
  obtain ⟨n, hn⟩ := h.books.marks
  refine ⟨h.standing, ?_⟩
  rw [hn]
  exact p.countP_isDestroyed_marks_eq n

theorem held (h : AtPhase id v p) (hremote : v.Remote v.conn.loop) (hp : p.isMapped = true) :
    Held id v p := by
  refine ⟨hp, h.account, fun hloop ↦ ?_⟩
  -- a functor that is waiting for another loop shows that the connection is not in the base loop
  have hfar : ∀ ℓ t, p.tasks id v.conn.loop ℓ = [t] → t.isRemote = true → False := by
    intro ℓ t ht htremote
    have hmem : t ∈ (v.tasks ℓ).filter Task.isLife := by
      rw [h.books.tasks, ht]
      exact mem_singleton.mpr rfl
    exact hremote.tasks ℓ t (mem_of_mem_filter hmem) htremote hloop
  cases p with
  | up => rfl
  | accepted => exact (hfar v.conn.loop (.connectEstablished id) (if_pos rfl) rfl).elim
  | closing => exact (hfar 0 (.removeConnectionInLoop id) rfl rfl).elim
  | removed => cases hp
  | gone => cases hp

theorem orphaned (h : AtPhase id v p) (hp : p.isMapped = false) : Orphaned id v p := by
  rw [Orphaned, ← Phase.tasks_eq_orphanTasks hp]
  exact h.account

end AtPhase

/-- The body of the loop in `~TcpServer`, seen from the connection. -/
def View.destroyConnection (id : ConnId) (env : Env) (v : View) : Checked View :=
  if v.conn.loop = 0 then v.connectDestroyed id env
  else pure (v.queue v.conn.loop (.connectDestroyed id))

/-- The destructor finds the connection in the base loop, and being shut down. -/
def View.Stuck (v : View) : Prop := v.conn.loop = 0 ∧ v.conn.conn.state = .kDisconnecting

namespace Held

variable {id : ConnId} {v : View} {p : Phase} {env : Env}

theorem destroyConnection (h : Held id v p) (henv : env.NoReadControl) (hstuck : ¬v.Stuck) :
    ∃ v', v.destroyConnection id env = .ok v' ∧ ∃ p', (p' = p ∨ p' = .gone) ∧
      Orphaned id v' p' := by
  by_cases hloop : v.conn.loop = 0
  · obtain rfl := h.established hloop
    have hstate : v.conn.conn.state ≠ .kDisconnecting := fun hd ↦ hstuck ⟨hloop, hd⟩
    obtain ⟨v', hv', -, hgone⟩ := h.account.connectDestroyed (Or.inl rfl) hstate henv
    refine ⟨v', (if_pos hloop).trans hv', .gone, Or.inr rfl, ?_⟩
    rw [Orphaned, Phase.orphanTasks_of_ne (by decide)]
    refine ⟨⟨hgone.standing.conn, fun ℓ ↦ ?_, hgone.standing.agenda.functors⟩, hgone.destroyed⟩
    rw [hgone.standing.agenda.tasks]
    exact (ite_self _).symm
  · refine ⟨_, if_neg hloop, p, Or.inl rfl, ?_, h.account.destroyed⟩
    have hagenda := h.account.standing.agenda.queue_life (t := .connectDestroyed id) rfl v.conn.loop
    rw [Phase.update_tasks h.mapped] at hagenda
    exact ⟨h.account.standing.conn, hagenda⟩

theorem destroyConnection_of_stuck (h : Held id v p) (hstuck : v.Stuck) :
    v.destroyConnection id env = .error .assertion := by
  obtain rfl := h.established hstuck.1
  rw [View.destroyConnection, if_pos hstuck.1]
  exact h.account.standing.connectDestroyed_disconnecting hstuck.2 env

end Held

namespace TcpServer

variable {cfg : ServerConfig} {s s' : TcpServer} {id : ConnId} {v : View}

theorem destroyConnection_focus (env : ConnId → Env) (id : ConnId) :
    Focus id (fun s ↦ s.destroyConnection env id) (View.destroyConnection id (env id)) := by
  intro s v hs hv
  have hr := (view_eq_some.mp hv).1
  simp only [destroyConnection, hr, View.destroyConnection]
  split
  · exact connectDestroyed_focus id (env id) s v hs hv
  · exact Or.inl ⟨_, _, rfl, rfl, Moves.queueInLoop hv rfl _⟩

/-- Halfway through the destructor: the connections of `rest` are still to come. If `quiet` holds,
no connection is closing. -/
def Midway (quiet : Prop) (rest : List ConnId) (i : ConnId) (v : View) : Prop :=
  (i ∈ rest → ∃ p, (quiet → p ≠ .closing) ∧ Held i v p) ∧
    (i ∉ rest → ∃ p, (quiet → p ≠ .closing) ∧ Orphaned i v p)

variable {quiet : Prop}

theorem Midway.tail {rest : List ConnId} {i : ConnId} (h : Midway quiet (id :: rest) i v)
    (hi : i ≠ id) : Midway quiet rest i v :=
  ⟨fun hmem ↦ h.1 (mem_cons_of_mem _ hmem), fun hmem ↦ h.2 (by simp [hi, hmem])⟩

/-- The destructor would find connection `i` in the base loop, and being shut down. -/
def Stuck (s : TcpServer) (i : ConnId) : Prop := ∃ v, s.view i = some v ∧ v.Stuck

/-- A `removeConnectionInLoop` of connection `i` is queued. -/
def Stale (s : TcpServer) (i : ConnId) : Prop :=
  ∃ v, s.view i = some v ∧ v.conn.loop ≠ 0 ∧ ∃ ℓ, .removeConnectionInLoop i ∈ v.tasks ℓ

/-- What the destructor does with one connection. -/
theorem destroyConnection_cases {rest : List ConnId}
    (h : s.Everywhere cfg (Midway quiet (id :: rest)))
    (hid : id ∉ rest) {env : ConnId → Env} (henv : ∀ i, (env i).NoReadControl) :
    (s.Stuck id ∧ s.destroyConnection env id = .error .assertion) ∨
    (¬s.Stuck id ∧ ∃ s', s.destroyConnection env id = .ok s' ∧
      s'.Everywhere cfg (Midway quiet rest) ∧
      (∀ i ≠ id, s'.view i = s.view i) ∧ ∀ i, s.Stale i → s'.Stale i) := by
  cases hv : s.view id with
  | none =>
    refine Or.inr ⟨?_, s, ?_, ⟨h.named, h.small, h.queued, fun i v hi ↦ ?_⟩, fun _ _ ↦ rfl,
      fun _ hi ↦ hi⟩
    · rintro ⟨v, hv', -⟩
      rw [hv] at hv'
      cases hv'
    · rw [view, Option.map_eq_none_iff] at hv
      simp only [destroyConnection, hv]
      rfl
    · refine (h.views i v hi).tail ?_
      rintro rfl
      rw [hv] at hi
      cases hi
  | some v =>
    obtain ⟨p, hp, hheld⟩ := (h.views id v hv).1 mem_cons_self
    have hfocus := destroyConnection_focus env id
    by_cases hstuck : v.Stuck
    · exact Or.inl ⟨⟨v, hv, hstuck⟩,
        hfocus.eq_error h.distinct hv (hheld.destroyConnection_of_stuck hstuck)⟩
    obtain ⟨v', hv', p', hp', horphan⟩ := hheld.destroyConnection (henv id) hstuck
    have hquiet : quiet → p' ≠ .closing := by
      intro hq
      rcases hp' with rfl | rfl
      · exact hp hq
      · decide
    rcases hfocus s v h.distinct hv with ⟨s', w, hs', hw, hm⟩ | ⟨e, -, herr⟩
    · obtain rfl := Except.ok.inj (hv'.symm.trans hw)
      refine Or.inr ⟨?_, s', hs', ?_, hm.others, ?_⟩
      · rintro ⟨u, hu, hu'⟩
        rw [hv] at hu
        cases hu
        exact hstuck hu'
      · exact h.of_moves (conns_ne_none_of_view hv) hm (fun i w hi hw ↦ hw.tail hi)
          ⟨fun hmem ↦ absurd hmem hid, fun _ ↦ ⟨p', hquiet, horphan⟩⟩
      · rintro i ⟨u, hu, hloop, ℓ, hmem⟩
        rcases eq_or_ne i id with rfl | hi
        · -- of an I/O loop: a functor is added behind
          rw [hv] at hu
          cases hu
          rw [View.destroyConnection, if_neg hloop] at hv'
          cases hv'
          exact ⟨_, hm.view, hloop, ℓ, View.mem_queue_tasks.mpr (Or.inl hmem)⟩
        · exact ⟨u, by rw [hm.others i hi, hu], hloop, ℓ, hmem⟩
    · rw [hv'] at herr
      cases herr

theorem runAll_destroyConnection {ids : List ConnId} (hnodup : ids.Nodup)
    (h : s.Everywhere cfg (Midway quiet ids)) {env : ConnId → Env}
    (henv : ∀ i, (env i).NoReadControl) :
    ((∃ i ∈ ids, s.Stuck i) ∧ runAll (destroyConnection env) s ids = .error .assertion) ∨
    ((∀ i ∈ ids, ¬s.Stuck i) ∧ ∃ s', runAll (destroyConnection env) s ids = .ok s' ∧
      s'.Everywhere cfg (Midway quiet []) ∧ ∀ i, s.Stale i → s'.Stale i) := by
  induction ids generalizing s with
  | nil => exact Or.inr ⟨fun _ hi ↦ (not_mem_nil hi).elim, s, rfl, h, fun _ hi ↦ hi⟩
  | cons id ids ih =>
    obtain ⟨hid, hnodup'⟩ := nodup_cons.mp hnodup
    rcases destroyConnection_cases h hid henv with ⟨hstuck, herr⟩ | ⟨hstuck, t, ht, hall, hothers,
      hstale⟩
    · refine Or.inl ⟨⟨id, mem_cons_self, hstuck⟩, ?_⟩
      rw [runAll, herr]
      rfl
    · -- the views of the connections still to come are as before
      have hsame : ∀ i ∈ ids, t.Stuck i ↔ s.Stuck i := by
        intro i hi
        have hne : i ≠ id := fun heq ↦ hid (heq ▸ hi)
        rw [Stuck, Stuck, hothers i hne]
      rw [runAll, bind_of_ok ht]
      rcases ih hnodup' hall with ⟨⟨i, hi, hbad⟩, herr⟩ | ⟨hgood, s', hs', hend, hstale'⟩
      · exact Or.inl ⟨⟨i, mem_cons_of_mem _ hi, (hsame i hi).mp hbad⟩, herr⟩
      · refine Or.inr ⟨fun i hi ↦ ?_, s', hs', hend, fun i hi ↦ hstale' i (hstale i hi)⟩
        rcases mem_cons.mp hi with rfl | hi
        · exact hstuck
        · exact fun hbad ↦ hgood i hi ((hsame i hi).mpr hbad)

/-! ### What the destructor finds -/

theorem mem_connectionIds {i : ConnId} : i ∈ s.connectionIds cfg ↔
    i < s.nextConnId ∧ s.connections (cfg.connName i) = some i := by
  rw [connectionIds, (perm_insertionSort _ _).mem_iff, mem_filter, mem_range,
    decide_eq_true_iff]

theorem nodup_connectionIds : (s.connectionIds cfg).Nodup :=
  (perm_insertionSort _ _).nodup_iff.mpr (nodup_range.filter _)

/-- No functor of the base loop refers to the server. -/
def NoRemoval (s : TcpServer) : Prop := ∀ t ∈ s.queues 0, t.isRemoval = false

instance (s : TcpServer) : Decidable s.NoRemoval :=
  inferInstanceAs (Decidable (∀ t ∈ s.queues 0, _))

theorem view_release {i : ConnId} {w : View}
    (hw : { s with connections := fun _ ↦ none }.view i = some w) :
    ∃ v, s.view i = some v ∧ w = { v with mapped := none } := by
  obtain ⟨r, hr, rfl⟩ := Option.map_eq_some_iff.mp hw
  exact ⟨_, Option.map_eq_some_iff.mpr ⟨r, hr, rfl⟩, rfl⟩

theorem view_of_release {i : ConnId} (hv : s.view i = some v) :
    { s with connections := fun _ ↦ none }.view i = some { v with mapped := none } := by
  obtain ⟨r, hr, rfl⟩ := Option.map_eq_some_iff.mp hv
  exact Option.map_eq_some_iff.mpr ⟨r, hr, rfl⟩

theorem stuck_release (i : ConnId) :
    Stuck { s with connections := fun _ ↦ none } i ↔ s.Stuck i := by
  constructor
  · rintro ⟨w, hw, hstuck⟩
    obtain ⟨v, hv, rfl⟩ := view_release hw
    exact ⟨v, hv, hstuck⟩
  · rintro ⟨v, hv, hstuck⟩
    exact ⟨_, view_of_release hv, hstuck⟩

/-- A connection that is closing has a functor in the base loop. -/
theorem NoRemoval.not_closing (h : s.NoRemoval) {i : ConnId} (hv : s.view i = some v)
    (hAt : AtPhase i v .closing) : False := by
  have hmem : .removeConnectionInLoop i ∈ (v.tasks 0).filter Task.isLife := by
    rw [hAt.books.tasks]
    exact mem_singleton.mpr rfl
  have htasks := (view_eq_some.mp hv).2.1 0
  have hqueue := mem_of_mem_filter hmem
  rw [htasks] at hqueue
  cases h _ (mem_of_mem_filter hqueue)

/-- The state in which the loop of the destructor starts. -/
theorem release_midway (h : s.Inv cfg) (hremote : s.RemoteOnly) :
    { s with connections := fun _ ↦ none }.Everywhere cfg
      (Midway s.NoRemoval (s.connectionIds cfg)) := by
  refine ⟨h.named, h.small, h.queued, fun i w hw ↦ ?_⟩
  obtain ⟨v, hv, rfl⟩ := view_release hw
  obtain ⟨p, hAt⟩ := h.views i v hv
  obtain ⟨hr, -, hmapped⟩ := view_eq_some.mp hv
  obtain ⟨hname, hlt⟩ := h.named i v.conn hr
  have hquiet : s.NoRemoval → p ≠ .closing := by
    rintro hno rfl
    exact hno.not_closing hv hAt
  have hmem : i ∈ s.connectionIds cfg ↔ p.isMapped = true := by
    rw [mem_connectionIds, ← hname, ← hmapped, hAt.books.mapped]
    cases p.isMapped <;> simp [hlt]
  refine ⟨fun hi ↦ ⟨p, hquiet, ?_⟩, fun hi ↦ ⟨p, hquiet, ?_⟩⟩
  · have hheld := hAt.held (hremote i v hv) (hmem.mp hi)
    have hs := hheld.account.standing
    exact ⟨hheld.mapped, ⟨⟨hs.conn, hs.agenda.tasks, hs.agenda.functors⟩, hheld.account.destroyed⟩,
      hheld.established⟩
  · have horphan := hAt.orphaned (Bool.eq_false_of_not_eq_true fun hp ↦ hi (hmem.mpr hp))
    have hs := horphan.standing
    exact ⟨⟨hs.conn, hs.agenda.tasks, hs.agenda.functors⟩, horphan.destroyed⟩

/-- **The destructor.** It fails if it finds a connection of the base loop that is being shut down.
Otherwise it leaves every connection to its `connectDestroyed`, and what is stale stays so. -/
theorem destroy_cases (h : s.Inv cfg) (hremote : s.RemoteOnly) {env : ConnId → Env}
    (henv : ∀ i, (env i).NoReadControl) :
    ((∃ i ∈ s.connectionIds cfg, s.Stuck i) ∧ s.destroy cfg env = .error .assertion) ∨
    ((∀ i ∈ s.connectionIds cfg, ¬s.Stuck i) ∧ ∃ s', s.destroy cfg env = .ok s' ∧
      (s.NoRemoval → s'.AllOrphaned cfg) ∧ ∀ i, s.Stale i → s'.Stale i) := by
  have hmidway := release_midway h hremote
  rcases runAll_destroyConnection nodup_connectionIds hmidway henv with
    ⟨⟨i, hi, hstuck⟩, herr⟩ | ⟨hgood, s', hs', hend, hstale⟩
  · exact Or.inl ⟨⟨i, hi, (stuck_release i).mp hstuck⟩, herr⟩
  · refine Or.inr ⟨fun i hi ↦ fun hstuck ↦ hgood i hi ((stuck_release i).mpr hstuck), s', hs',
      fun hno ↦ ⟨hend.named, hend.small, hend.queued, fun i v hv ↦ ?_⟩, ?_⟩
    · obtain ⟨p, hp, horphan⟩ := (hend.views i v hv).2 not_mem_nil
      exact ⟨p, hp hno, horphan⟩
    · rintro i ⟨v, hv, hloop, hmem⟩
      exact hstale i ⟨_, view_of_release hv, hloop, hmem⟩

/-- A `removeConnectionInLoop` in the queue of the base loop is stale when the server is destroyed.
-/
theorem stale_of_not_noRemoval (h : s.Inv cfg) (hremote : s.RemoteOnly) (hno : ¬s.NoRemoval) :
    ∃ i, s.Stale i := by
  obtain ⟨t, ht, hremoval⟩ : ∃ t ∈ s.queues 0, t.isRemoval ≠ false := by
    simpa [NoRemoval] using hno
  cases t with
  | removeConnectionInLoop i =>
    obtain ⟨v, hv⟩ := h.view_of_queued ht
    have hmem : Task.removeConnectionInLoop i ∈ v.tasks 0 := by
      rw [(view_eq_some.mp hv).2.1]
      exact mem_filter.mpr ⟨ht, decide_eq_true rfl⟩
    exact ⟨i, v, hv, (hremote i v hv).tasks 0 _ hmem rfl, 0, hmem⟩
  | _ => exact absurd rfl hremoval

end TcpServer

/-! ## The process -/

/-- `connectDestroyed` of connection `id`. -/
def Task.destroys (id : ConnId) : Task → Bool
  | connectDestroyed i => i = id
  | _ => false

namespace Orphaned

variable {id : ConnId} {v : View} {p : Phase}

/-- `connectDestroyed` has run or is queued, and not both. -/
theorem destroyed_add_queued (h : Orphaned id v p) :
    v.conn.marks.countP Mark.isDestroyed + (v.tasks v.conn.loop).countP (Task.destroys id) = 1 := by
  have hlife : (v.tasks v.conn.loop).countP (Task.destroys id)
      = ((v.tasks v.conn.loop).filter Task.isLife).countP (Task.destroys id) := by
    rw [countP_filter]
    refine countP_congr fun t _ ↦ ?_
    cases t <;> simp [Task.destroys, Task.isLife]
  rw [hlife, h.standing.agenda.tasks, h.destroyed, Phase.orphanTasks, if_pos rfl,
    countP_append]
  cases p <;> simp [Phase.ownTasks, Task.destroys]

/-- A connection whose `connectDestroyed` has not run must not be destructed. -/
theorem not_destructible (h : Orphaned id v p) (hp : p ≠ .gone) : v.conn.destructible = false := by
  have hconn := h.standing.conn
  rw [ServerConn.destructible, Bool.and_eq_false_iff]
  cases p with
  | accepted =>
    left
    rw [hconn.2.1]
    rfl
  | up =>
    left
    refine decide_eq_false fun hstate ↦ ?_
    have hopen := Up.isOpen hconn
    rw [hstate] at hopen
    cases hopen
  | closing =>
    right
    rw [(Down.removable hconn).2.1.1]
    rfl
  | removed =>
    right
    rw [(Down.removable hconn).2.1.1]
    rfl
  | gone => exact absurd rfl hp

end Orphaned

namespace TcpServer

variable {cfg : ServerConfig} {s : TcpServer} {ℓ : LoopId}

/-- No functor of an orphaned connection refers to the server. -/
theorem AllOrphaned.not_isRemoval (h : s.AllOrphaned cfg) {t : Task} (ht : t ∈ s.queues ℓ) :
    t.isRemoval = false := by
  obtain ⟨v, hv⟩ := h.view_of_queued ht
  obtain ⟨p, hp, horphan⟩ := h.views t.id v hv
  refine horphan.not_isRemoval hp (ℓ := ℓ) ?_
  rw [(view_eq_some.mp hv).2.1]
  exact mem_filter.mpr ⟨ht, decide_eq_true rfl⟩

/-- A loop ends with none of the functors left that make up the life of a connection. -/
theorem AllOrphaned.clear (h : s.AllOrphaned cfg) (hlife : ∀ t ∈ s.queues ℓ, t.isLife = false) :
    { s with queues := update s.queues ℓ [] }.AllOrphaned cfg := by
  set u : TcpServer := { s with queues := update s.queues ℓ [] } with hu
  have hself : u.queues ℓ = [] := update_self ..
  have hother : ∀ ℓ' ≠ ℓ, u.queues ℓ' = s.queues ℓ' := fun _ hne ↦ update_of_ne hne ..
  refine ⟨h.named, h.small, fun ℓ' t ht ↦ h.queued ℓ' t ?_, fun i w hw ↦ ?_⟩
  · rcases eq_or_ne ℓ' ℓ with rfl | hne
    · rw [hself] at ht
      cases ht
    · rwa [hother ℓ' hne] at ht
  -- the view is the old one with the tasks of this loop taken out
  obtain ⟨hr, htasks, -⟩ := view_eq_some.mp hw
  obtain ⟨v, hv, hvr⟩ := view_of_conns (s := s) hr
  obtain ⟨p, hp, horphan⟩ := h.views i v hv
  have hvtasks := (view_eq_some.mp hv).2.1
  have hagenda := horphan.standing.agenda
  refine ⟨p, hp, ⟨hvr ▸ horphan.standing.conn, fun ℓ' ↦ ?_, fun ℓ' f hf ↦ ?_⟩,
    hvr ▸ horphan.destroyed⟩
  · rw [← hvr, ← hagenda.tasks, htasks, hvtasks]
    rcases eq_or_ne ℓ' ℓ with rfl | hne
    · rw [hself]
      refine (filter_eq_nil_iff.mpr fun t ht ↦ ?_).symm
      rw [hlife t (mem_of_mem_filter ht)]
      exact Bool.false_ne_true
    · rw [hother ℓ' hne]
  · refine hagenda.functors ℓ' f ?_
    rw [htasks] at hf
    rw [hvtasks]
    rcases eq_or_ne ℓ' ℓ with rfl | hne
    · rw [hself] at hf
      cases hf
    · rwa [hother ℓ' hne] at hf

/-- A loop that ends with such a functor left takes a connection along that must not be destructed.
-/
theorem AllOrphaned.not_dropsSafely (h : s.AllOrphaned cfg) {t : Task} (ht : t ∈ s.queues ℓ)
    (hlife : t.isLife = true) : ¬ServerProcess.DropsSafely s ℓ := by
  intro hdrops
  obtain ⟨v, hv⟩ := h.view_of_queued ht
  obtain ⟨p, hp, horphan⟩ := h.views t.id v hv
  obtain ⟨hr, htasks, -⟩ := view_eq_some.mp hv
  have hgone : p ≠ .gone := by
    rintro rfl
    have hmem : t ∈ (v.tasks ℓ).filter Task.isLife := by
      rw [htasks]
      exact mem_filter.mpr ⟨mem_filter.mpr ⟨ht, decide_eq_true rfl⟩, hlife⟩
    rw [horphan.standing.agenda.tasks, Phase.orphanTasks_of_ne hp] at hmem
    simp [Phase.ownTasks] at hmem
  have hdestructible := hdrops t ht hlife fun u hu hremoval ↦ by
    rw [h.not_isRemoval hu] at hremoval
    cases hremoval
  rw [hr, Option.all_some, horphan.not_destructible hgone] at hdestructible
  cases hdestructible

end TcpServer

namespace ServerProcess

/-- What is assumed of the users and of the kernel, as for a server that is not destroyed. -/
def Assumed (w : ServerProcess) : ProcessAct → Prop
  | .act a => w.server.Assumed a
  | .destroy env => ∀ i, (env i).NoReadControl
  | .exit _ => True

variable (cfg : ServerConfig) (w : ServerProcess)

/-- The condition. When the server is destroyed, no `removeConnectionInLoop` is queued, and no
connection of the base loop is being shut down. From then on no connection is closed, none is being
shut down when its `connectDestroyed` runs, and a thread ends only after it has run that functor for
all its connections. -/
def Clean : ProcessAct → Prop
  | .act a => w.destroyed = true → w.CanAct cfg a → w.server.Undisturbed a
  | .destroy _ => w.destroyed = false → w.server.NoRemoval ∧
    ∀ i ∈ w.server.connectionIds cfg, ∀ r ∈ w.server.conns i,
      r.loop = 0 → r.conn.state ≠ .kDisconnecting
  | .exit loop => w.Enabled cfg (.exit loop) → ∀ t ∈ w.server.queues loop, t.isLife = false

instance : (a : ProcessAct) → Decidable (w.Clean cfg a)
  | .act a => inferInstanceAs (Decidable (_ → w.CanAct cfg a → w.server.Undisturbed a))
  | .destroy _ => inferInstanceAs (Decidable (_ → w.server.NoRemoval ∧ _))
  | .exit loop => inferInstanceAs (Decidable (w.Enabled cfg (.exit loop) → _))

/-- When the server has been destroyed, no functor refers to it. Of every connection,
`connectDestroyed` has run or is queued, exactly once, and if it has run the connection is
disconnected. -/
def Tidy : Prop :=
  w.destroyed = true → (∀ ℓ, ∀ t ∈ w.server.queues ℓ, t.isRemoval = false) ∧
    ∀ id r, w.server.conns id = some r →
      r.marks.countP Mark.isDestroyed + (w.server.queues r.loop).countP (Task.destroys id) = 1 ∧
      (r.marks.countP Mark.isDestroyed = 1 → r.conn.state = .kDisconnected)

/-- The invariant, before and after the destructor. -/
structure Inv : Prop where
  alive : w.destroyed = false → w.server.Inv cfg ∧ w.server.RemoteOnly
  orphaned : w.destroyed = true → w.server.AllOrphaned cfg

variable {cfg w}

theorem Inv.tidy (h : w.Inv cfg) : w.Tidy := by
  intro hd
  have hall := h.orphaned hd
  refine ⟨fun ℓ t ht ↦ hall.not_isRemoval ht, fun id r hr ↦ ?_⟩
  obtain ⟨v, hv, rfl⟩ := TcpServer.view_of_conns hr
  obtain ⟨p, -, horphan⟩ := hall.views id v hv
  have hqueue : (w.server.queues v.conn.loop).countP (Task.destroys id)
      = (v.tasks v.conn.loop).countP (Task.destroys id) := by
    rw [(TcpServer.view_eq_some.mp hv).2.1, countP_filter]
    refine countP_congr fun t _ ↦ ?_
    cases t with
    | connectDestroyed i =>
      simp only [Task.destroys, Task.id, Bool.and_eq_true, decide_eq_true_eq]
      exact ⟨fun h ↦ ⟨h, decide_eq_true h⟩, fun h ↦ h.1⟩
    | _ => simp [Task.destroys]
  refine ⟨by rw [hqueue]; exact horphan.destroyed_add_queued, fun hone ↦ ?_⟩
  rw [horphan.destroyed] at hone
  have hgone : p = .gone := by
    by_contra hne
    rw [decide_eq_false hne] at hone
    cases hone
  subst hgone
  exact horphan.standing.conn.1

/-- What an action does when it is possible: if it is clean it keeps the invariant, and otherwise it
fails or leaves something untidy. -/
structure Judged (cfg : ServerConfig) (w : ServerProcess) (a : ProcessAct) : Prop where
  keeps : w.Clean cfg a → Yields (w.perform cfg a) (Inv cfg)
  breaks : ¬w.Clean cfg a → (∃ f, w.perform cfg a = .error f ∧ f ≠ .lengthError) ∨
    ∃ w', w.perform cfg a = .ok w' ∧ ¬w'.Tidy

section

variable (h : w.Inv cfg)
include h

/-- While the server lives, its steps are all clean. -/
theorem judged_act_alive {a : ServerAct} (ha : w.Assumed (.act a))
    (hd : w.destroyed = false) : Judged cfg w (.act a) := by
  obtain ⟨hinv, hremote⟩ := h.alive hd
  refine ⟨fun _ ↦ ?_, fun hno ↦ absurd (fun htrue ↦ by rw [hd] at htrue; cases htrue) hno⟩
  rw [perform, if_neg (by rw [hd]; decide)]
  rcases TcpServer.step_inv hinv ha with ⟨s, hs, hinv'⟩ | herr
  · rw [bind_of_ok hs]
    refine yields_pure ⟨fun _ ↦ ⟨hinv', TcpServer.step_remoteOnly hinv hremote ha hs⟩, ?_⟩
    intro htrue
    rw [hd] at htrue
    cases htrue
  · rw [herr]
    exact Or.inr rfl

/-- After the destructor, a step is clean if it disturbs no orphan. -/
theorem judged_act_orphaned {a : ServerAct} (ha : w.Assumed (.act a))
    (hon : w.Enabled cfg (.act a)) (hd : w.destroyed = true) : Judged cfg w (.act a) := by
  obtain ⟨hok, herr⟩ := TcpServer.orphanStep_spec (h.orphaned hd) ha
  have hperform : w.perform cfg (.act a) = (w.server.orphanStep a >>= fun s ↦
      pure { w with server := s }) := by
    rw [perform, if_pos hd]
  refine ⟨fun hclean ↦ ?_, fun hno ↦ Or.inl ?_⟩
  · rw [hperform]
    refine (hok (hclean hd hon)).bind fun s hs ↦ yields_pure ⟨fun hfalse ↦ ?_, fun _ ↦ hs⟩
    rw [hd] at hfalse
    cases hfalse
  · rw [hperform]
    obtain ⟨f, hf, hfail⟩ := herr fun hquiet ↦ hno fun _ _ ↦ hquiet
    exact ⟨f, bind_eq_error.mpr (Or.inl hfail), hf⟩

/-- The destructor is clean if no connection is stuck and no removal is queued. -/
theorem judged_destroy {env : ConnId → Env} (ha : w.Assumed (.destroy env))
    (hon : w.Enabled cfg (.destroy env)) : Judged cfg w (.destroy env) := by
  obtain ⟨hinv, hremote⟩ := h.alive hon
  rcases TcpServer.destroy_cases hinv hremote ha with
    ⟨⟨i, hi, v, hv, hloop, hstate⟩, herr⟩ | ⟨hgood, s, hs, hall, hstale⟩
  · refine ⟨fun hclean ↦ ?_, fun _ ↦
      Or.inl ⟨.assertion, bind_eq_error.mpr (Or.inl herr), by decide⟩⟩
    have hr := (TcpServer.view_eq_some.mp hv).1
    exact absurd hstate ((hclean hon).2 i hi v.conn hr hloop)
  · have hperform : w.perform cfg (.destroy env) =
        .ok { w with server := s, destroyed := true } := by
      rw [perform, bind_of_ok hs]
      rfl
    refine ⟨fun hclean ↦ ?_, fun hno ↦ Or.inr ⟨_, hperform, fun htidy ↦ ?_⟩⟩
    · rw [hperform]
      refine yields_pure ⟨fun hfalse ↦ ?_, fun _ ↦ hall (hclean hon).1⟩
      cases hfalse
    · -- nothing is stuck, so something is stale
      have hremoval : ¬w.server.NoRemoval := by
        refine fun hnone ↦ hno fun _ ↦ ⟨hnone, fun i hi r hr hloop hstate ↦ hgood i hi ?_⟩
        obtain ⟨v, hv, rfl⟩ := TcpServer.view_of_conns hr
        exact ⟨v, hv, hloop, hstate⟩
      obtain ⟨i, hi⟩ := TcpServer.stale_of_not_noRemoval hinv hremote hremoval
      obtain ⟨v, hv, -, ℓ, hmem⟩ := hstale i hi
      rw [(TcpServer.view_eq_some.mp hv).2.1] at hmem
      cases (htidy rfl).1 ℓ _ (mem_of_mem_filter hmem)

/-- A loop exits cleanly if its queue holds nothing that the life of a connection waits for. -/
theorem judged_exit {loop : LoopId} (hon : w.Enabled cfg (.exit loop)) :
    Judged cfg w (.exit loop) := by
  have hall := h.orphaned hon.1
  refine ⟨fun hclean ↦ ?_, fun hno ↦ Or.inl ⟨.assertion, ?_, by decide⟩⟩
  · have hlife := hclean hon
    have hdrops : DropsSafely w.server loop := by
      intro t ht htrue
      rw [hlife t ht] at htrue
      cases htrue
    refine yields_assert_bind hdrops (yields_pure ⟨fun hfalse ↦ ?_, fun _ ↦ hall.clear hlife⟩)
    rw [hon.1] at hfalse
    cases hfalse
  · obtain ⟨t, ht, hlife⟩ : ∃ t ∈ w.server.queues loop, t.isLife = true := by
      by_contra hnone
      refine hno fun _ t ht ↦ ?_
      by_contra hlife
      exact hnone ⟨t, ht, Bool.eq_true_of_not_eq_false hlife⟩
    exact assert_bind_of_not (hall.not_dropsSafely ht hlife) _

theorem judged {a : ProcessAct} (ha : w.Assumed a) (hon : w.Enabled cfg a) :
    Judged cfg w a := by
  cases a with
  | act a =>
    cases hd : w.destroyed with
    | false => exact judged_act_alive h ha hd
    | true => exact judged_act_orphaned h ha hon hd
  | destroy env => exact judged_destroy h ha hon
  | exit loop => exact judged_exit h hon

end

theorem enabled_of_not_clean {a : ProcessAct} (h : ¬w.Clean cfg a) : w.Enabled cfg a := by
  by_contra hoff
  apply h
  cases a with
  | act a => exact fun _ hcan ↦ absurd hcan hoff
  | destroy env => exact fun hd ↦ absurd hd hoff
  | exit loop => exact fun hon ↦ absurd hon hoff

theorem start_inv (cfg : ServerConfig) : start.Inv cfg := by
  refine ⟨fun _ ↦ ⟨TcpServer.start_inv cfg, fun i v hv ↦ ?_⟩, fun h ↦ ?_⟩
  · cases hv
  · cases h

/-- **Destroying the server.** Let a server run, with any number of I/O threads and any interleaving
of its loops, and be destroyed at some point. No assertion fails, the destroyed server is not used,
and every state that is reached is tidy, exactly if every step meets the condition `Clean`. -/
theorem destruction_clean_iff (cfg : ServerConfig) (acts : List ProcessAct)
    (hacts : Along (step cfg) Assumed start acts) :
    (∀ pre, pre <+: acts → (∀ w, runAll (step cfg) start pre = .ok w → w.Tidy) ∧
      ∀ e, runAll (step cfg) start pre = .error e → ¬∃ f, e = .fault f ∧ f ≠ .lengthError) ↔
    Along (step cfg) (Clean cfg) start acts := by
  refine along_iff_of_prefixes (fun _ ↦ Inv.tidy) (fun w a w' h ha hclean hok ↦ ?_)
    (fun w a e h ha hclean herr ↦ ?_) (fun w a h ha hno ↦ ?_) (start_inv cfg) hacts
  · obtain ⟨hon, hok⟩ := attempt_eq_ok.mp hok
    exact ((judged h ha hon).keeps hclean).of_eq_ok hok
  · rintro ⟨f, rfl, hf⟩
    obtain ⟨hon, herr⟩ := attempt_eq_fault.mp herr
    rcases (judged h ha hon).keeps hclean with ⟨w', hok, -⟩ | hlength
    · rw [herr] at hok
      cases hok
    · rw [herr] at hlength
      exact hf (Except.error.inj hlength)
  · have hon := enabled_of_not_clean hno
    rcases (judged h ha hon).breaks hno with ⟨f, herr, hf⟩ | ⟨w', hok, huntidy⟩
    · exact Or.inl ⟨.fault f, attempt_eq_fault.mpr ⟨hon, herr⟩, f, rfl, hf⟩
    · exact Or.inr ⟨w', attempt_eq_ok.mpr ⟨hon, hok⟩, huntidy⟩

/-- One connection is accepted and established in its loop. -/
def acceptOne : List ProcessAct :=
  [.act (.accept LoopState.idleEnv), .act (.functor 1 LoopState.idleEnv)]

/-- The server is destroyed, the connection is destroyed in its loop, and the thread ends. -/
def destroyOne : List ProcessAct :=
  [.destroy fun _ ↦ LoopState.idleEnv, .act (.functor 1 LoopState.idleEnv), .exit 1]

theorem destruction_clean_oneThread :
    ∃ w, runAll (step TcpServer.oneThread) start (acceptOne ++ destroyOne) = .ok w ∧ w.Tidy := by
  have hidle : LoopState.idleEnv.NoReadControl := by simp [Env.NoReadControl, LoopState.idleEnv]
  have hassumed : Along (step TcpServer.oneThread) Assumed start (acceptOne ++ destroyOne) :=
    ⟨⟨hidle, by decide⟩, fun _ _ ↦ ⟨hidle, fun _ _ ↦ ⟨fun _ ↦ hidle, fun _ _ ↦ ⟨hidle, fun _ _ ↦
      ⟨trivial, fun _ _ ↦ trivial⟩⟩⟩⟩⟩
  have hclean : Along (step TcpServer.oneThread) (Clean TcpServer.oneThread) start
      (acceptOne ++ destroyOne) := by
    decide +kernel
  have hok : (runAll (step TcpServer.oneThread) start (acceptOne ++ destroyOne)).isOk = true := by
    decide +kernel
  have hall := (destruction_clean_iff TcpServer.oneThread _ hassumed).mpr hclean _
    (prefix_refl _)
  cases hrun : runAll (step TcpServer.oneThread) start (acceptOne ++ destroyOne) with
  | error e =>
    rw [hrun] at hok
    cases hok
  | ok w => exact ⟨w, rfl, hall.1 w hrun⟩

/-- A server without I/O threads. -/
def noThreads : ServerConfig := { TcpServer.oneThread with numThreads := 0 }

/-- The server is destroyed while its connection is being shut down. -/
def destroyWhileShutdown : List ProcessAct :=
  [.act (.accept LoopState.idleEnv), .act (.call 1 true .shutdown),
    .destroy fun _ ↦ LoopState.idleEnv]

/-- The server is destroyed while `removeConnectionInLoop` of a closed connection is queued. -/
def destroyWhileClosing : List ProcessAct :=
  acceptOne ++ [.act (.call 1 false .forceClose), .act (.functor 1 LoopState.idleEnv)] ++
    destroyOne ++
    [.act (.functor 0 LoopState.idleEnv)]

/-- The peer closes the connection after the server has been destroyed. -/
def closeAfterDestroy : List ProcessAct :=
  acceptOne ++ [.destroy fun _ ↦ LoopState.idleEnv,
    .act (.event 1 EventMask.POLLHUP LoopState.idleEnv)]

/-- The thread ends before `connectDestroyed` has run. -/
def exitTooEarly : List ProcessAct :=
  acceptOne ++ [.destroy fun _ ↦ LoopState.idleEnv, .exit 1]

/-- Four runs of a server that is destroyed: with a connection that is being shut down, with one
that is closing, with one that is closed afterwards, and with a thread that ends early. -/
theorem destruction_not_clean :
    Along (step noThreads) Assumed start destroyWhileShutdown ∧
    (runAll (step noThreads) start destroyWhileShutdown).map (fun _ ↦ ())
      = .error (.fault .assertion) ∧
    (runAll (step TcpServer.oneThread) start destroyWhileClosing).map (fun _ ↦ ())
      = .error (.fault .badAccess) ∧
    (runAll (step TcpServer.oneThread) start closeAfterDestroy).map (fun _ ↦ ())
      = .error (.fault .badAccess) ∧
    (runAll (step TcpServer.oneThread) start exitTooEarly).map (fun _ ↦ ())
      = .error (.fault .assertion) := by
  have hidle : LoopState.idleEnv.NoReadControl := by simp [Env.NoReadControl, LoopState.idleEnv]
  refine ⟨⟨⟨hidle, by decide⟩, fun _ _ ↦ ⟨rfl, fun _ _ ↦ ⟨fun _ ↦ hidle, fun _ _ ↦ trivial⟩⟩⟩, ?_⟩
  decide +kernel

end ServerProcess

end Fishnet
