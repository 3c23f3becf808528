import Fishnet.Net.ConnectionLife
import Fishnet.Net.ServerView

/-!
# The life cycle of a server's connections

Closing a connection travels from its loop to the base loop, which takes it out of `connections_`,
and back to its loop, where it is destroyed. A connection is in one of five phases on this way. Each
phase says which functors that make up its life are queued and where, whether it is in
`connections_`, and what has happened so far. A connection is closed by its peer or by `forceClose`,
whichever comes first; in every later phase both are without effect.

The invariant of the server is that every connection is in some phase. It is proved on views, one
connection at a time, and holds for every number of I/O threads, also for none.
-/

namespace Fishnet

open TcpConnection Effect Function List

/-! ## Phases -/

/-- A functor that makes up the life of its connection. -/
def Task.isLife : Task → Bool
  | functor _ _ => false
  | _ => true

/-- The phases of a connection. -/
inductive Phase where
  /-- In `connections_`, `connectEstablished` is queued. -/
  | accepted
  /-- Established. -/
  | up
  /-- Closed, `removeConnectionInLoop` is queued. -/
  | closing
  /-- Out of `connections_`, `connectDestroyed` is queued. -/
  | removed
  /-- Destroyed. -/
  | gone
  deriving DecidableEq

namespace Phase

/-- What has happened when an established connection has been dispatched `n` times. -/
def history (n : ℕ) : List Mark :=
  .established :: .callback .kConnected :: replicate n .event

/-- What has happened until a phase. -/
def marks (n : ℕ) : Phase → List Mark
  | accepted => []
  | up => history n
  | closing => history n ++ [.callback .kDisconnected]
  | removed => history n ++ [.callback .kDisconnected, .erased 1]
  | gone => history n ++ [.callback .kDisconnected, .erased 1, .destroyed 0]

/-- The functors queued in a phase of a connection that lives in `loop`. -/
def tasks (id : ConnId) (loop : LoopId) : Phase → LoopId → List Task
  | accepted, ℓ => if ℓ = loop then [.connectEstablished id] else []
  | up, _ => []
  | closing, ℓ => if ℓ = 0 then [.removeConnectionInLoop id] else []
  | removed, ℓ => if ℓ = loop then [.connectDestroyed id] else []
  | gone, _ => []

/-- Whether the connection is in `connections_`. -/
def isMapped : Phase → Bool
  | accepted => true
  | up => true
  | closing => true
  | removed => false
  | gone => false

/-- What is known about the connection itself. -/
def Holds (c : TcpConnection) : Phase → Prop
  | accepted => c.Wf ∧ c.state = .kConnecting ∧ c.channel.registration.watched = none ∧ c.NoRead
  | up => c.Up
  | closing => c.Down
  | removed => c.Down
  | gone => c.state = .kDisconnected ∧ c.channel.registration.watched = none

end Phase

/-- The phase in which a functor that makes up the life of its connection is queued. -/
def Task.phase : Task → Phase
  | connectEstablished _ => .accepted
  | functor _ _ => .up
  | removeConnectionInLoop _ => .closing
  | connectDestroyed _ => .removed

/-- The books of the server agree that connection `id` is in phase `p`, with the functors `q`. -/
structure Books (id : ConnId) (v : View) (p : Phase) (q : LoopId → List Task) : Prop where
  marks : ∃ n, v.conn.marks = p.marks n
  tasks : ∀ ℓ, (v.tasks ℓ).filter Task.isLife = q ℓ
  mapped : v.mapped = if p.isMapped then some id else none
  functors : ∀ ℓ f, .functor id f ∈ v.tasks ℓ → p ≠ .accepted ∧ f.isReadControl = false

/-- Connection `id` is in phase `p`. -/
structure AtPhase (id : ConnId) (v : View) (p : Phase) : Prop where
  conn : p.Holds v.conn.conn
  books : Books id v p (p.tasks id v.conn.loop)

/-! ### Queued functors -/

/-- The functors of connection `id`: those that make up its life are `q`, and the others fit the
phase. -/
structure Agenda (id : ConnId) (v : View) (p : Phase) (q : LoopId → List Task) : Prop where
  tasks : ∀ ℓ, (v.tasks ℓ).filter Task.isLife = q ℓ
  functors : ∀ ℓ f, .functor id f ∈ v.tasks ℓ → p ≠ .accepted ∧ f.isReadControl = false

namespace Agenda

variable {id : ConnId} {v : View} {p : Phase} {q : LoopId → List Task}

variable (h : Agenda id v p q)
include h

/-- The phase matters only as long as the connection has not been established. -/
theorem of_phase (p' : Phase) (hp' : p' ≠ .accepted) : Agenda id v p' q :=
  ⟨h.tasks, fun ℓ f hf ↦ ⟨hp', (h.functors ℓ f hf).2⟩⟩

theorem queue_functor (hp : p ≠ .accepted) {f : Functor}
    (hf : f.isReadControl = false) (loop : LoopId) :
    Agenda id (v.queue loop (.functor id f)) p q := by
  refine ⟨fun ℓ ↦ ?_, fun ℓ g hg ↦ ?_⟩
  · rcases eq_or_ne ℓ loop with rfl | hne
    · rw [View.queue_tasks_self, filter_append, h.tasks]
      exact append_nil _
    · rw [View.queue_tasks_of_ne v hne, h.tasks]
  · rcases View.mem_queue_tasks.mp hg with hg | ⟨-, hg⟩
    · exact h.functors ℓ g hg
    · cases hg
      exact ⟨hp, hf⟩

theorem queue_life {t : Task} (ht : t.isLife = true) (loop : LoopId) :
    Agenda id (v.queue loop t) p (update q loop (q loop ++ [t])) := by
  refine ⟨fun ℓ ↦ ?_, fun ℓ g hg ↦ ?_⟩
  · rcases eq_or_ne ℓ loop with rfl | hne
    · rw [View.queue_tasks_self, filter_append, h.tasks, update_self,
        filter_cons_of_pos ht]
      rfl
    · rw [View.queue_tasks_of_ne v hne, h.tasks, update_of_ne hne]
  · rcases View.mem_queue_tasks.mp hg with hg | ⟨-, rfl⟩
    · exact h.functors ℓ g hg
    · cases ht

theorem pop_functors {ℓ₀ : LoopId} (ℓ : LoopId) (f : Functor)
    (hf : .functor id f ∈ (v.pop ℓ₀).tasks ℓ) : p ≠ .accepted ∧ f.isReadControl = false :=
  h.functors ℓ f (View.mem_of_mem_pop_tasks hf)

/-- Taking a functor out of its queue that does not make up the connection's life. -/
theorem pop_functor {ℓ₀ : LoopId} {u : Task} (hu : u.isLife = false)
    (hhead : (v.tasks ℓ₀).head? = some u) : Agenda id (v.pop ℓ₀) p q := by
  refine ⟨fun ℓ ↦ ?_, h.pop_functors⟩
  rcases eq_or_ne ℓ ℓ₀ with rfl | hne
  · obtain ⟨rest, hrest⟩ := head?_eq_some_iff.mp hhead
    rw [← h.tasks ℓ, View.pop_tasks_self, hrest, tail_cons,
      filter_cons_of_neg (by rw [hu]; decide)]
  · rw [View.pop_tasks_of_ne v hne, h.tasks]

theorem pop_life {ℓ₀ : LoopId} {u : Task} (hu : u.isLife = true)
    (hhead : (v.tasks ℓ₀).head? = some u) :
    ∃ rest, q ℓ₀ = u :: rest ∧ Agenda id (v.pop ℓ₀) p (update q ℓ₀ rest) := by
  obtain ⟨rest, hrest⟩ := head?_eq_some_iff.mp hhead
  have hℓ₀ := h.tasks ℓ₀
  rw [hrest, filter_cons_of_pos hu] at hℓ₀
  refine ⟨rest.filter Task.isLife, hℓ₀.symm, fun ℓ ↦ ?_, h.pop_functors⟩
  rcases eq_or_ne ℓ ℓ₀ with rfl | hne
  · rw [View.pop_tasks_self, hrest, tail_cons, update_self]
  · rw [View.pop_tasks_of_ne v hne, h.tasks, update_of_ne hne]

end Agenda

namespace Books

variable {id : ConnId} {v : View} {p : Phase} {q : LoopId → List Task}

theorem agenda (h : Books id v p q) : Agenda id v p q := ⟨h.tasks, h.functors⟩

theorem queue_life (h : Books id v p fun _ ↦ []) {t : Task} (ht : t.isLife = true) (loop : LoopId) :
    Books id (v.queue loop t) p fun ℓ ↦ if ℓ = loop then [t] else [] := by
  have hagenda := h.agenda.queue_life ht loop
  refine ⟨h.marks, fun ℓ ↦ ?_, h.mapped, hagenda.functors⟩
  rw [hagenda.tasks, update_apply]
  rfl

theorem pop_life {ℓ₁ : LoopId} {t : Task} (h : Books id v p fun ℓ ↦ if ℓ = ℓ₁ then [t] else [])
    {ℓ₀ : LoopId} {u : Task} (hu : u.isLife = true) (hhead : (v.tasks ℓ₀).head? = some u) :
    u = t ∧ Books id (v.pop ℓ₀) p fun _ ↦ [] := by
  obtain ⟨rest, hq, hagenda⟩ := h.agenda.pop_life hu hhead
  by_cases heq : ℓ₀ = ℓ₁
  · subst heq
    rw [if_pos rfl, List.cons.injEq] at hq
    refine ⟨hq.1.symm, h.marks, fun ℓ ↦ ?_, h.mapped, hagenda.functors⟩
    rw [hagenda.tasks, update_apply]
    split
    next => exact hq.2.symm
    next => rfl
  · rw [if_neg heq] at hq
    cases hq

/-- No functor of the connection's life can be taken out if none is queued. -/
theorem not_life (h : Books id v p fun _ ↦ []) {ℓ₀ : LoopId} {u : Task}
    (hhead : (v.tasks ℓ₀).head? = some u) : u.isLife = false := by
  by_contra hu
  obtain ⟨rest, hq, -⟩ := h.agenda.pop_life (by simpa using hu) hhead
  cases hq

end Books

/-! ## What happens to one connection

Most of what happens to a connection leaves it in its phase, and only adds functors that do not make
up its life. -/

namespace Phase

variable {p : Phase} {c c' : TcpConnection}

/-- The connection stays in its phase, and its trace grows by entries that do not mark its life. -/
structure Stays (p : Phase) (c c' : TcpConnection) : Prop where
  holds : p.Holds c'
  trace : ∃ es, c'.trace = c.trace ++ es ∧ lifecycle es = [] ∧
    ∀ f, .queueInLoop f ∈ es → p ≠ .accepted ∧ f.isReadControl = false

theorem Stays.refl (h : p.Holds c) : p.Stays c c :=
  ⟨h, [], (append_nil _).symm, rfl, fun _ hf ↦ by cases hf⟩

theorem stays_of_busy (h : c.Up) (hb : Busy c c') : up.Stays c c' := by
  have hup := h.of_busy hb
  obtain ⟨es, hes, hquiet⟩ := hb.quiet.trace
  refine ⟨hup, es, hes, hquiet, fun f hf ↦ ⟨by decide, hup.noRead f ?_⟩⟩
  rw [hes]
  exact mem_append_right _ hf

variable (h : p.Holds c)
include h

theorem Holds.not_open (hp : p ≠ .up) : c.state.isOpen = false := by
  cases p with
  | accepted =>
    rw [h.2.1]
    rfl
  | up => exact absurd rfl hp
  | closing => exact Down.not_open h
  | removed => exact Down.not_open h
  | gone =>
    rw [h.1]
    rfl

theorem Holds.disconnected (hp : p ≠ .up) (hp' : p ≠ .accepted) :
    c.state = .kDisconnected := by
  cases p with
  | accepted => exact absurd rfl hp'
  | up => exact absurd rfl hp
  | closing => exact Down.state h
  | removed => exact Down.state h
  | gone => exact h.1

theorem Holds.emits (hp : p ≠ .up) (hp' : p ≠ .accepted) (es : List Effect) :
    p.Holds (c.emits es) := by
  cases p with
  | accepted => exact absurd rfl hp'
  | up => exact absurd rfl hp
  | closing => exact Down.emits h es
  | removed => exact Down.emits h es
  | gone => exact h

theorem Holds.of_watched {m : EventMask}
    (hwatched : c.channel.registration.watched = some m) : p = .up := by
  cases p with
  | up => rfl
  | accepted =>
    rw [h.2.2.1] at hwatched
    cases hwatched
  | closing =>
    rw [Down.unwatched h] at hwatched
    cases hwatched
  | removed =>
    rw [Down.unwatched h] at hwatched
    cases hwatched
  | gone =>
    rw [h.2] at hwatched
    cases hwatched

theorem Holds.call (inLoop : Bool) {k : Call} (hk : k.isReadControl = false) :
    Yields (c.call inLoop k) (p.Stays c) := by
  by_cases hp : p = .up
  · subst hp
    exact (call_busy (Up.wf h) inLoop hk).imp fun _ ↦ stays_of_busy h
  · rw [call_of_not_open (h.not_open hp) inLoop hk]
    exact yields_ok (Stays.refl h)

/-- A functor that does not close the connection. -/
theorem Holds.runFunctor (hp : p ≠ .accepted) {env : Env} (henv : env.NoReadControl)
    {f : Functor} (hf : f.isReadControl = false) (hclose : f = .forceCloseInLoop → p ≠ .up) :
    Yields (c.runFunctor env f) (p.Stays c) := by
  by_cases hup : p = .up
  · subst hup
    have hne : f ≠ .forceCloseInLoop := fun heq ↦ hclose heq rfl
    exact (Up.runFunctor_busy h henv hf hne).imp fun _ ↦ stays_of_busy h
  · obtain ⟨unsent, hsame | hemits⟩ := runFunctor_of_disconnected (h.disconnected hup hp) henv hf
    · rw [hsame]
      exact yields_ok (Stays.refl h)
    · rw [hemits]
      refine yields_ok ⟨h.emits hup hp _, _, rfl, rfl, fun f hf ↦ ?_⟩
      cases mem_singleton.mp hf

end Phase

/-- The books of the server on a connection, but for its functors, are as they were. -/
structure Kept (v v' : View) : Prop where
  marks : v'.conn.marks = v.conn.marks
  loop : v'.conn.loop = v.conn.loop
  mapped : v'.mapped = v.mapped

theorem Kept.refl (v : View) : Kept v v := ⟨rfl, rfl, rfl⟩

/-- Connection `id` is as phase `p` says, with the functors `q`. -/
structure Standing (id : ConnId) (v : View) (p : Phase) (q : LoopId → List Task) : Prop where
  conn : p.Holds v.conn.conn
  agenda : Agenda id v p q

namespace Standing

variable {id : ConnId} {v : View} {p : Phase} {q : LoopId → List Task}

/-- Entries of the trace that do not mark the life of the connection only add functors. -/
theorem effects_quiet (h : Standing id v p q) (loop : LoopId)
    {g : View → Effect → Checked View}
    (hg : ∀ v e, e.isLifecycle = false → g v e = View.applyEffect id loop v e) {es : List Effect}
    (hes : lifecycle es = [])
    (hread : ∀ f, .queueInLoop f ∈ es → p ≠ .accepted ∧ f.isReadControl = false) :
    ∃ v', runAll g v es = .ok v' ∧ Kept v v' ∧ Standing id v' p q := by
  induction es generalizing v with
  | nil => exact ⟨v, rfl, Kept.refl v, h⟩
  | cons e es ih =>
    have hhead : e.isLifecycle = false := by
      by_contra hne
      rw [Bool.not_eq_false] at hne
      rw [lifecycle, filter_cons_of_pos hne] at hes
      cases hes
    have htail : lifecycle es = [] := by
      rw [lifecycle, filter_cons_of_neg (by rw [hhead]; decide)] at hes
      exact hes
    have hrest := fun f hf ↦ hread f (mem_cons_of_mem e hf)
    rw [runAll, hg v e hhead]
    cases e with
    | connectionCallback state => cases hhead
    | closeCallback => cases hhead
    | queueInLoop f =>
      obtain ⟨hp, hf⟩ := hread f mem_cons_self
      have hnow : Standing id (v.queue loop (.functor id f)) p q :=
        ⟨h.conn, h.agenda.queue_functor hp hf loop⟩
      obtain ⟨v', hv', hkept, hstanding⟩ := ih hnow htail hrest
      exact ⟨v', hv', ⟨hkept.marks, hkept.loop, hkept.mapped⟩, hstanding⟩
    | _ => exact ih h htail hrest

/-- A function that leaves the connection in its phase. The effects can be applied by any `g` that
agrees with `applyEffect` on entries that do not mark its life. -/
theorem withConn_stays (h : Standing id v p q) {op : TcpConnection → Checked TcpConnection}
    (hop : Yields (op v.conn.conn) (p.Stays v.conn.conn)) {g : View → Effect → Checked View}
    (hg : ∀ v' e, e.isLifecycle = false → g v' e = View.applyEffect id v.conn.loop v' e) :
    Yields (op v.conn.conn >>= fun c ↦ runAll g { v with conn := { v.conn with conn := c } }
      (c.trace.drop v.conn.conn.trace.length)) fun v' ↦ Kept v v' ∧ Standing id v' p q := by
  refine hop.bind fun c hc ↦ ?_
  obtain ⟨es, hes, hquiet, hread⟩ := hc.trace
  have hnow : Standing id { v with conn := { v.conn with conn := c } } p q :=
    ⟨hc.holds, h.agenda.tasks, h.agenda.functors⟩
  rw [hes, drop_left]
  obtain ⟨v', hv', hkept, hstanding⟩ := hnow.effects_quiet v.conn.loop hg hquiet hread
  exact Or.inl ⟨v', hv', ⟨hkept.marks, hkept.loop, hkept.mapped⟩, hstanding⟩

theorem pop_functor (h : Standing id v p q) {ℓ : LoopId} {f : Functor}
    (hhead : (v.tasks ℓ).head? = some (.functor id f)) : Standing id (v.pop ℓ) p q :=
  ⟨h.conn, h.agenda.pop_functor rfl hhead⟩

/-- `connectEstablished` runs on a connection that nothing has happened to. -/
theorem connectEstablished (h : Standing id v .accepted q) {env : Env} (henv : env.NoReadControl) :
    Yields ((v.mark .established).withConn id fun c ↦ c.connectEstablished env.onConnection)
      fun v' ↦ Kept ((v.mark .established).mark (.callback .kConnected)) v' ∧
        Standing id v' .up q := by
  obtain ⟨hwf, hstate, -, hnoRead⟩ := h.conn
  refine (connectEstablished_up hwf hstate hnoRead henv.onConnection).bind ?_
  rintro c ⟨hup, es, hquiet, htrace⟩
  set w : View := { v.mark .established with conn := { (v.mark .established).conn with conn := c } }
  have hagenda := h.agenda.of_phase .up (by decide)
  have hnow : Standing id (w.mark (.callback .kConnected)) .up q :=
    ⟨hup, hagenda.tasks, hagenda.functors⟩
  have hdrop : c.trace.drop v.conn.conn.trace.length = .connectionCallback .kConnected :: es := by
    rw [htrace, drop_left]
  have hread : ∀ f, .queueInLoop f ∈ es → Phase.up ≠ .accepted ∧ f.isReadControl = false := by
    refine fun f hf ↦ ⟨by decide, hup.noRead f ?_⟩
    rw [htrace]
    exact mem_append_right _ (mem_cons_of_mem _ hf)
  obtain ⟨v', hv', hkept, hstanding⟩ :=
    hnow.effects_quiet v.conn.loop (fun _ _ _ ↦ rfl) hquiet hread
  refine Or.inl ⟨v', ?_, ⟨hkept.marks, hkept.loop, hkept.mapped⟩, hstanding⟩
  change runAll _ w (c.trace.drop v.conn.conn.trace.length) = _
  rw [hdrop]
  exact hv'

/-- `connectDestroyed` finds the channel of a closed connection without events. -/
theorem connectDestroyed (h : Standing id v .removed q) (env : Env) :
    ∃ v', v.connectDestroyed id env = .ok v' ∧ Kept (v.mark (.destroyed 0)) v' ∧
      Standing id v' .gone q := by
  have hc : v.conn.conn.Down := h.conn
  obtain ⟨c, hc', hstate, htrace, hwatched⟩ := hc.connectDestroyed env.onConnection
  set w := v.mark (.destroyed v.conn.conn.channel.events) with hw
  have hok : v.connectDestroyed id env = .ok { w with conn := { w.conn with conn := c } } := by
    have hop : w.conn.conn.connectDestroyed env.onConnection = .ok c := hc'
    refine (bind_of_ok hop _).trans ?_
    change runAll _ _ (c.trace.drop v.conn.conn.trace.length) = _
    rw [htrace, drop_length]
    rfl
  have hagenda := h.agenda.of_phase .gone (by decide)
  refine ⟨_, hok, ⟨?_, rfl, rfl⟩, ⟨hstate, hwatched⟩, hagenda.tasks, hagenda.functors⟩
  change v.conn.marks ++ [.destroyed v.conn.conn.channel.events] = v.conn.marks ++ [.destroyed 0]
  rw [hc.removable.1]

end Standing

namespace AtPhase

variable {id : ConnId} {v v' : View} {p : Phase}

theorem standing (h : AtPhase id v p) : Standing id v p (p.tasks id v.conn.loop) :=
  ⟨h.conn, h.books.agenda⟩

theorem pop_life (h : AtPhase id v p) {ℓ : LoopId} {t : Task} (ht : t.isLife = true)
    (hhead : (v.tasks ℓ).head? = some t) : p = t.phase ∧ Books id (v.pop ℓ) p fun _ ↦ [] := by
  cases p with
  | up => cases (h.books.not_life hhead).symm.trans ht
  | gone => cases (h.books.not_life hhead).symm.trans ht
  | _ =>
    obtain ⟨rfl, hbooks⟩ := h.books.pop_life ht hhead
    exact ⟨rfl, hbooks⟩

theorem of_kept (h : AtPhase id v p) (hkept : Kept v v')
    (hstanding : Standing id v' p (p.tasks id v.conn.loop)) : AtPhase id v' p := by
  refine ⟨hstanding.conn, ?_, ?_, ?_, hstanding.agenda.functors⟩
  · rw [hkept.marks]
    exact h.books.marks
  · rw [hkept.loop]
    exact hstanding.agenda.tasks
  · rw [hkept.mapped]
    exact h.books.mapped

/-- `removeConnectionInLoop` finds the connection in `connections_`, once. -/
theorem removeConnectionInLoop (hc : v.conn.conn.Down) (h : Books id v .closing fun _ ↦ []) :
    ∃ v', v.removeConnectionInLoop id = .ok v' ∧ AtPhase id v' .removed := by
  have hmapped : v.mapped.isSome = true := by
    rw [h.mapped]
    rfl
  obtain ⟨n, hn⟩ := h.marks
  have hbooks : Books id { v.mark (.erased 1) with mapped := none } .removed fun _ ↦ [] := by
    refine ⟨⟨n, ?_⟩, h.tasks, rfl, fun ℓ f hf ↦ ⟨by decide, (h.functors ℓ f hf).2⟩⟩
    change v.conn.marks ++ _ = _
    rw [hn, Phase.marks, Phase.marks, append_assoc]
    rfl
  have hok : v.removeConnectionInLoop id = .ok ({ v.mark (.erased 1) with mapped := none }.queue
      v.conn.loop (.connectDestroyed id)) := by
    rw [View.removeConnectionInLoop, if_pos hmapped]
    rfl
  exact ⟨_, hok, hc, hbooks.queue_life rfl v.conn.loop⟩

/-- A function that leaves the connection in its phase. -/
theorem withConn_stays (h : AtPhase id v p) {op : TcpConnection → Checked TcpConnection}
    (hop : Yields (op v.conn.conn) (p.Stays v.conn.conn)) :
    Yields (v.withConn id op) fun v' ↦ AtPhase id v' p :=
  (h.standing.withConn_stays hop fun _ _ _ ↦ rfl).imp fun _ hv' ↦ h.of_kept hv'.1 hv'.2

/-- What an established connection does leaves it established or closes it. -/
theorem withConn_up (h : AtPhase id v .up) {op : TcpConnection → Checked TcpConnection}
    (hop : Yields (op v.conn.conn) fun c ↦ Busy v.conn.conn c ∨ Closed v.conn.conn c) :
    Yields (v.withConn id op) fun v' ↦ ∃ p, AtPhase id v' p := by
  rcases hop with ⟨c, hc, hb | hcl⟩ | herr
  · have hstays : Yields (op v.conn.conn) (Phase.up.Stays v.conn.conn) := by
      rw [hc]
      exact yields_ok (Phase.stays_of_busy h.conn hb)
    exact (h.withConn_stays hstays).imp fun _ hv' ↦ ⟨.up, hv'⟩
  · set w : View := { v with conn := { v.conn with conn := c } } with hw
    rw [View.withConn, bind_of_ok hc, hcl.2, drop_left]
    obtain ⟨n, hn⟩ := h.books.marks
    have hclosing : Books id (w.mark (.callback .kDisconnected)) .closing fun _ ↦ [] := by
      refine ⟨⟨n, ?_⟩, h.books.tasks, h.books.mapped, fun ℓ f hf ↦ ⟨by decide, ?_⟩⟩
      · change v.conn.marks ++ _ = _
        rw [hn]
        rfl
      · exact (h.books.functors ℓ f hf).2
    change Yields ((w.mark (.callback .kDisconnected)).removeConnection v.conn.loop id >>= pure) _
    rw [bind_pure, View.removeConnection]
    split
    next =>
      -- in the base loop the connection is removed at once
      obtain ⟨v', hv', hAt⟩ := removeConnectionInLoop hcl.1 hclosing
      exact Or.inl ⟨v', hv', .removed, hAt⟩
    next =>
      exact yields_pure ⟨.closing, hcl.1,
        hclosing.queue_life (t := .removeConnectionInLoop id) rfl 0⟩
  · rw [View.withConn, herr]
    exact Or.inr rfl

/-- `connectEstablished` runs on a connection that nothing has happened to. -/
theorem connectEstablished (hc : Phase.accepted.Holds v.conn.conn)
    (h : Books id v .accepted fun _ ↦ []) {env : Env} (henv : env.NoReadControl) :
    Yields ((v.mark .established).withConn id fun c ↦ c.connectEstablished env.onConnection)
      fun v' ↦ AtPhase id v' .up := by
  refine (Standing.connectEstablished ⟨hc, h.agenda⟩ henv).imp ?_
  rintro v' ⟨hkept, hstanding⟩
  obtain ⟨n, hn⟩ := h.marks
  refine ⟨hstanding.conn, ⟨0, ?_⟩, hstanding.agenda.tasks, ?_, hstanding.agenda.functors⟩
  · rw [hkept.marks]
    change (v.conn.marks ++ _) ++ _ = _
    rw [hn]
    rfl
  · rw [hkept.mapped]
    exact h.mapped

/-- `connectDestroyed` finds the channel without events. -/
theorem connectDestroyed (hc : v.conn.conn.Down) (h : Books id v .removed fun _ ↦ []) (env : Env) :
    ∃ v', v.connectDestroyed id env = .ok v' ∧ AtPhase id v' .gone := by
  have hremoved : Standing id v .removed fun _ ↦ [] := ⟨hc, h.agenda⟩
  obtain ⟨v', hv', hkept, hstanding⟩ := hremoved.connectDestroyed env
  obtain ⟨n, hn⟩ := h.marks
  refine ⟨v', hv', hstanding.conn, ⟨n, ?_⟩, hstanding.agenda.tasks, ?_, hstanding.agenda.functors⟩
  · rw [hkept.marks]
    change v.conn.marks ++ _ = _
    rw [hn, Phase.marks, Phase.marks, append_assoc]
    rfl
  · rw [hkept.mapped]
    exact h.mapped

theorem call (h : AtPhase id v p) (inLoop : Bool) {k : Call} (hk : k.isReadControl = false) :
    Yields (v.withConn id fun c ↦ c.call inLoop k) fun v' ↦ ∃ p, AtPhase id v' p :=
  (h.withConn_stays (h.conn.call inLoop hk)).imp fun _ hv' ↦ ⟨p, hv'⟩

theorem event (h : AtPhase id v p) {m revents : EventMask}
    (hwatched : v.conn.conn.channel.registration.watched = some m) (hk : KernelReports revents)
    {env : Env} (henv : env.NoReadControl) :
    Yields ((v.mark .event).withConn id fun c ↦ c.handleEvent revents env)
      fun v' ↦ ∃ p, AtPhase id v' p := by
  obtain rfl := h.conn.of_watched hwatched
  have hmarked : AtPhase id (v.mark .event) .up := by
    obtain ⟨n, hn⟩ := h.books.marks
    refine ⟨h.conn, ⟨n + 1, ?_⟩, h.books.tasks, h.books.mapped, h.books.functors⟩
    change v.conn.marks ++ _ = _
    rw [hn, Phase.marks, Phase.marks, Phase.history, Phase.history, replicate_succ']
    rfl
  exact hmarked.withConn_up (hmarked.conn.handleEvent hk henv)

theorem functor (h : AtPhase id v p) {ℓ : LoopId} {f : Functor}
    (hhead : (v.tasks ℓ).head? = some (.functor id f)) {env : Env} (henv : env.NoReadControl) :
    Yields ((v.pop ℓ).withConn id fun c ↦ c.runFunctor env f) fun v' ↦ ∃ p, AtPhase id v' p := by
  obtain ⟨hp, hf⟩ := h.books.functors ℓ f (mem_of_mem_head? hhead)
  have hpop : AtPhase id (v.pop ℓ) p := h.of_kept ⟨rfl, rfl, rfl⟩ (h.standing.pop_functor hhead)
  by_cases hup : p = .up
  · subst hup
    exact hpop.withConn_up (Up.runFunctor hpop.conn henv hf)
  · have hstays := hpop.conn.runFunctor hp henv hf fun _ ↦ hup
    exact (hpop.withConn_stays hstays).imp fun _ hv' ↦ ⟨p, hv'⟩

end AtPhase

/-! ## The server -/

namespace TcpServer

/-- What is assumed: no one starts or stops reading, `nextConnId_` does not wrap, the poller reports
only connections it watches, and the kernel reports as `KernelReports` says. -/
def Assumed (s : TcpServer) : ServerAct → Prop
  | .accept env => env.NoReadControl ∧ s.nextConnId < 2 ^ 31
  | .event id revents env => env.NoReadControl ∧ KernelReports revents ∧
    ∃ r m, s.conns id = some r ∧ r.conn.channel.registration.watched = some m
  | .call _ _ k => k.isReadControl = false
  | .functor _ env => env.NoReadControl
  | .timer _ => True

/-- The invariant of the server: every connection is in some phase. -/
abbrev Inv (cfg : ServerConfig) (s : TcpServer) : Prop :=
  s.Everywhere cfg fun i v ↦ ∃ p, AtPhase i v p

/-- The invariant of the server, but for the phase of one connection. -/
structure InvExcept (cfg : ServerConfig) (s : TcpServer) (id : ConnId) : Prop where
  everywhere : s.Everywhere cfg fun i v ↦ i ≠ id → ∃ p, AtPhase i v p
  present : s.conns id ≠ none

variable {cfg : ServerConfig} {s s' : TcpServer} {id : ConnId} {v : View}

theorem Inv.except (h : s.Inv cfg) (hv : s.view id = some v) : s.InvExcept cfg id :=
  ⟨⟨h.named, h.small, h.queued, fun i w hw _ ↦ h.views i w hw⟩,
    by rw [(view_eq_some.mp hv).1]; exact Option.some_ne_none _⟩

/-- What is done on behalf of one connection, and leaves it in some phase, keeps the invariant. -/
theorem InvExcept.of_moves (h : s.InvExcept cfg id) (hm : Moves id s s' v)
    (hp : ∃ p, AtPhase id v p) : s'.Inv cfg :=
  h.everywhere.of_moves h.present hm (fun _ _ hi hw ↦ hw hi) hp

/-- What a focused function yields for the view, it yields for the server. -/
theorem Focus.yields {f : TcpServer → Checked TcpServer} {g : View → Checked View}
    (hf : Focus id f g) {s₀ : TcpServer} (h : s₀.InvExcept cfg id) (hm : Moves id s₀ s v)
    (hg : Yields (g v) fun v' ↦ ∃ p, AtPhase id v' p) : Yields (f s) (Inv cfg) :=
  hf.everywhere h.everywhere h.present (fun _ _ hi hw ↦ hw hi) hm hg

theorem withConn_of_none (h : s.conns id = none) (op : TcpConnection → Checked TcpConnection) :
    s.withConn id op = .ok s := by
  simp only [withConn, h]
  rfl

section

variable (h : s.Inv cfg)
include h

theorem withConn_inv {op : TcpConnection → Checked TcpConnection}
    (hop : ∀ v p, s.view id = some v → AtPhase id v p →
      Yields (v.withConn id op) fun v' ↦ ∃ p, AtPhase id v' p) :
    Yields (s.withConn id op) (Inv cfg) := by
  cases hv : s.view id with
  | none =>
    rw [view, Option.map_eq_none_iff] at hv
    rw [withConn_of_none hv]
    exact yields_ok h
  | some v =>
    obtain ⟨p, hp⟩ := h.views id v hv
    exact (withConn_focus id op).yields (h.except hv) (Moves.refl hv) (hop v p hv hp)

theorem functor_inv {ℓ : LoopId} {t : Task} {rest : List Task}
    (hq : s.queues ℓ = t :: rest) {env : Env} (henv : env.NoReadControl) :
    Yields ({ s with queues := update s.queues ℓ rest }.runTask env t) (Inv cfg) := by
  obtain ⟨v, hv⟩ := h.view_of_queued (t := t) (by rw [hq]; exact mem_cons_self)
  obtain ⟨hhead, hm⟩ := Moves.pop hv hq rfl
  obtain ⟨p, hp⟩ := h.views _ v hv
  have hexcept := h.except hv
  cases t with
  | functor id f => exact (withConn_focus id _).yields hexcept hm (hp.functor hhead henv)
  | connectEstablished id =>
    obtain ⟨rfl, hbooks⟩ := hp.pop_life rfl hhead
    refine (connectEstablished_focus id env).yields hexcept hm ?_
    exact (AtPhase.connectEstablished (v := v.pop ℓ) hp.conn hbooks henv).imp fun _ hup ↦
      ⟨.up, hup⟩
  | removeConnectionInLoop id =>
    obtain ⟨rfl, hbooks⟩ := hp.pop_life rfl hhead
    refine (removeConnectionInLoop_focus id).yields hexcept hm ?_
    obtain ⟨v', hv', hAt⟩ := AtPhase.removeConnectionInLoop (v := v.pop ℓ) hp.conn hbooks
    exact Or.inl ⟨v', hv', .removed, hAt⟩
  | connectDestroyed id =>
    obtain ⟨rfl, hbooks⟩ := hp.pop_life rfl hhead
    refine (connectDestroyed_focus id env).yields hexcept hm ?_
    obtain ⟨v', hv', hAt⟩ := AtPhase.connectDestroyed (v := v.pop ℓ) hp.conn hbooks env
    exact Or.inl ⟨v', hv', .gone, hAt⟩

/-- `newConnection` creates a connection that nothing has happened to, leaves the views of the
others as they were, and has it established. -/
theorem newConnection_fresh (hsmall : s.nextConnId < 2 ^ 31) :
    ∃ (s₁ : TcpServer) (r : ServerConn), s₁.InvExcept cfg s.nextConnId ∧
      s₁.view s.nextConnId = some ⟨r, fun _ ↦ [], some s.nextConnId⟩ ∧
      (∀ i ≠ s.nextConnId, s₁.view i = s.view i) ∧ (Phase.accepted.Holds r.conn ∧ r.marks = []) ∧
      s₁.nextConnId = s.nextConnId + 1 ∧ ∀ env, s.newConnection cfg env =
        if r.loop = 0 then s₁.connectEstablished s.nextConnId env
        else pure (s₁.queueInLoop r.loop (.connectEstablished s.nextConnId)) := by
  obtain ⟨c, hc, hwf, hstate, -, hchannel, -, htrace⟩ :=
    TcpConnection.new_spec cfg.poller cfg.writeCompleteCallback false (64 * 1024 * 1024)
  set id := s.nextConnId with hid
  set ioLoop := (getNextLoop cfg.numThreads s.next).1 with hloop
  set r : ServerConn := ⟨c, ioLoop, cfg.connName id, []⟩ with hr
  set s₁ : TcpServer := { s with
    nextConnId := id + 1
    next := (getNextLoop cfg.numThreads s.next).2
    connections := update s.connections (cfg.connName id) (some id)
    conns := update s.conns id (some r) } with hs₁
  -- numbers are given out in order, and this one has not been
  have hfresh : s.conns id = none := by
    by_contra hsome
    obtain ⟨r', hr'⟩ := Option.ne_none_iff_exists'.mp hsome
    exact lt_irrefl _ (h.named id r' hr').2
  have hnone : ∀ ℓ, (s.queues ℓ).filter (·.id = id) = [] := by
    intro ℓ
    rw [filter_eq_nil_iff]
    intro t ht hti
    exact h.queued ℓ t ht (by rw [of_decide_eq_true hti, hfresh])
  have hview : s₁.view id = some ⟨r, fun _ ↦ [], some id⟩ := by
    refine view_eq_some.mpr ⟨update_self .., fun ℓ ↦ (hnone ℓ).symm, ?_⟩
    change some id = update s.connections (cfg.connName id) (some id) (cfg.connName id)
    rw [update_self]
  have hothers : ∀ i ≠ id, s₁.view i = s.view i := by
    intro i hne
    refine view_congr (update_of_ne hne ..) (fun _ ↦ rfl) fun r' hr' ↦ ?_
    -- names differ as long as the numbers do not wrap around
    obtain ⟨hname, hlt⟩ := h.named i r' hr'
    refine update_of_ne (fun heq ↦ hne ?_) ..
    exact cfg.connName_injective (hlt.trans hsmall) hsmall (by rw [← hname, heq])
  have hexcept : s₁.InvExcept cfg id := by
    refine ⟨⟨fun i r' hi ↦ ?_, hsmall, fun ℓ t ht ↦ ?_, fun i v hv hne ↦ ?_⟩, by simp [hs₁]⟩
    · rcases eq_or_ne i id with rfl | hne
      · simp only [hs₁, update_self, Option.some.injEq] at hi
        rw [← hi]
        exact ⟨rfl, Nat.lt_succ_self _⟩
      · simp only [hs₁, update_of_ne hne] at hi
        exact ⟨(h.named i r' hi).1, (h.named i r' hi).2.trans (Nat.lt_succ_self _)⟩
    · rcases eq_or_ne t.id id with heq | hne
      · simp [hs₁, heq]
      · simpa [hs₁, hne] using h.queued ℓ t ht
    · rw [hothers i hne] at hv
      exact h.views i v hv
  have hconn : Phase.accepted.Holds c := by
    refine ⟨hwf, hstate, by rw [hchannel]; rfl, fun f hf ↦ ?_⟩
    rw [htrace] at hf
    cases hf
  refine ⟨s₁, r, hexcept, hview, hothers, ⟨hconn, rfl⟩, rfl, fun env ↦ ?_⟩
  rw [newConnection, bind_of_ok hc]

/-- A new connection is accepted, or, in a server without I/O threads, established. -/
theorem newConnection_inv {env : Env} (henv : env.NoReadControl)
    (hsmall : s.nextConnId < 2 ^ 31) : Yields (s.newConnection cfg env) (Inv cfg) := by
  obtain ⟨s₁, r, hexcept, hview, -, ⟨hconn, hmarks⟩, -, heq⟩ := newConnection_fresh h hsmall
  have hbooks : Books s.nextConnId ⟨r, fun _ ↦ [], some s.nextConnId⟩ .accepted fun _ ↦ [] :=
    ⟨⟨0, hmarks⟩, fun _ ↦ rfl, rfl, fun _ _ hf ↦ by cases hf⟩
  rw [heq]
  split
  · refine (connectEstablished_focus _ env).yields hexcept (Moves.refl hview) ?_
    exact (AtPhase.connectEstablished hconn hbooks henv).imp fun _ hup ↦ ⟨.up, hup⟩
  · exact yields_pure (hexcept.of_moves (Moves.queueInLoop hview rfl r.loop)
      ⟨.accepted, hconn, hbooks.queue_life rfl r.loop⟩)

/-- **One step of the server.** -/
theorem step_inv {a : ServerAct} (ha : s.Assumed a) :
    Yields (s.step cfg a) (Inv cfg) := by
  cases a with
  | accept env => exact newConnection_inv h ha.1 ha.2
  | event id revents env =>
    obtain ⟨henv, hk, r, m, hr, hwatched⟩ := ha
    obtain ⟨v, hv, rfl⟩ := view_of_conns hr
    obtain ⟨p, hp⟩ := h.views id v hv
    exact (mark_focus (withConn_focus id _) _).yields (h.except hv) (Moves.refl hv)
      (hp.event hwatched hk henv)
  | call id inLoop k => exact withConn_inv h fun v p _ hp ↦ hp.call inLoop ha
  | functor ℓ env =>
    rw [step]
    split
    next => exact yields_pure h
    next hq => exact functor_inv h hq ha
  | timer id =>
    rw [step]
    split
    · exact yields_pure h
    · set t : TcpServer := { s with delayed := update s.delayed id (s.delayed id - 1) }
      have ht : t.Inv cfg := ⟨h.named, h.small, h.queued, h.views⟩
      exact withConn_inv ht fun v p _ hp ↦ hp.call true (k := .forceClose) rfl

end

theorem start_inv (cfg : ServerConfig) : start.Inv cfg := by
  refine ⟨fun i r hr ↦ ?_, by decide, fun ℓ t ht ↦ ?_, fun i v hv ↦ ?_⟩
  · cases hr
  · cases ht
  · cases hv

end TcpServer

/-! ## Accepted connections -/

def ServerAct.isAccept : ServerAct → Bool
  | accept _ => true
  | _ => false

namespace TcpServer

/-- Connections `1` to `n` have been accepted. -/
def Numbered (n : ℕ) (s : TcpServer) : Prop :=
  s.nextConnId = n + 1 ∧ ∀ id : ℕ, s.conns id ≠ none ↔ 1 ≤ id ∧ id ≤ n

section Numbered

variable {cfg : ServerConfig} {s s' : TcpServer} {id : ConnId} {v : View} {n : ℕ}

theorem view_eq_none : s.view id = none ↔ s.conns id = none := by
  rw [view, Option.map_eq_none_iff]

/-- What is done on behalf of a connection adds none and removes none. -/
theorem Moves.numbered (hm : Moves id s s' v) (h : s.Numbered n) : s'.Numbered n := by
  refine ⟨hm.nextConnId.trans h.1, fun i ↦ ?_⟩
  rw [← h.2 i, not_iff_not, ← Option.map_eq_none_iff (f := (·.name)), hm.names i,
    Option.map_eq_none_iff]

theorem Focus.numbered {f : TcpServer → Checked TcpServer} {g : View → Checked View}
    (hf : Focus id f g) (hs : s.Distinct) (hv : s.view id = some v) (h : s.Numbered n)
    (hok : f s = .ok s') : s'.Numbered n := by
  rcases hf s v hs hv with ⟨t, _, ht, -, hm⟩ | ⟨e, he, -⟩
  · rw [hok] at ht
    cases ht
    exact hm.numbered h
  · rw [hok] at he
    cases he

theorem withConn_numbered {op : TcpConnection → Checked TcpConnection} (hs : s.Distinct)
    (h : s.Numbered n) (hok : s.withConn id op = .ok s') : s'.Numbered n := by
  cases hv : s.view id with
  | none =>
    rw [withConn_of_none (view_eq_none.mp hv)] at hok
    cases hok
    exact h
  | some v => exact (withConn_focus id op).numbered hs hv h hok

theorem runTask_focus (env : Env) (t : Task) : ∃ g, Focus t.id (·.runTask env t) g := by
  cases t with
  | functor id f => exact ⟨_, withConn_focus id fun c ↦ c.runFunctor env f⟩
  | connectEstablished id => exact ⟨_, connectEstablished_focus id env⟩
  | removeConnectionInLoop id => exact ⟨_, removeConnectionInLoop_focus id⟩
  | connectDestroyed id => exact ⟨_, connectDestroyed_focus id env⟩

theorem newConnection_numbered (hinv : s.Inv cfg) (hsmall : s.nextConnId < 2 ^ 31) {env : Env}
    (h : s.Numbered n) (hok : s.newConnection cfg env = .ok s') : s'.Numbered (n + 1) := by
  obtain ⟨s₁, r, hexcept, hview, hothers, -, hnext, heq⟩ := newConnection_fresh hinv hsmall
  have hnumbered : s₁.Numbered (n + 1) := by
    refine ⟨by rw [hnext, h.1], fun i ↦ ?_⟩
    rcases eq_or_ne i s.nextConnId with rfl | hne
    · rw [Ne, ← view_eq_none, hview, h.1]
      simp
    · rw [Ne, ← view_eq_none, hothers i hne, view_eq_none, ← Ne, h.2 i]
      rw [h.1] at hne
      omega
  rw [heq] at hok
  split at hok
  · exact (connectEstablished_focus _ env).numbered hexcept.everywhere.distinct hview hnumbered hok
  · cases hok
    exact (Moves.queueInLoop hview rfl r.loop).numbered hnumbered

theorem step_numbered (hinv : s.Inv cfg) {a : ServerAct} (ha : s.Assumed a) (h : s.Numbered n)
    (hok : s.step cfg a = .ok s') : s'.Numbered (n + [a].countP ServerAct.isAccept) := by
  have hs := hinv.distinct
  cases a with
  | accept env => exact newConnection_numbered hinv ha.2 h hok
  | event id revents env =>
    obtain ⟨-, -, r, -, hr, -⟩ := ha
    obtain ⟨v, hv, -⟩ := view_of_conns hr
    exact (mark_focus (withConn_focus id _) _).numbered hs hv h hok
  | call id inLoop k =>
    rw [step] at hok
    exact withConn_numbered hs h hok
  | functor ℓ env =>
    rw [step] at hok
    split at hok
    next =>
      cases hok
      exact h
    next t rest hq =>
      obtain ⟨v, hv⟩ := hinv.view_of_queued (t := t) (by rw [hq]; exact mem_cons_self)
      obtain ⟨g, hfocus⟩ := runTask_focus env t
      have hpop := (Moves.pop hv hq rfl).2
      exact hfocus.numbered (hpop.distinct hs) hpop.view (hpop.numbered h) hok
  | timer id =>
    rw [step] at hok
    split at hok
    · cases hok
      exact h
    · set t : TcpServer := { s with delayed := update s.delayed id (s.delayed id - 1) }
      exact withConn_numbered (s := t) hs h hok

/-- **Every connection that was accepted has its entry**, and no other has one. -/
theorem runAll_numbered {acts : List ServerAct} (hinv : s.Inv cfg) (h : s.Numbered n)
    (hacts : Along (step cfg) Assumed s acts) (hrun : runAll (step cfg) s acts = .ok s') :
    s'.Numbered (n + acts.countP ServerAct.isAccept) := by
  induction acts generalizing s n with
  | nil =>
    cases hrun
    exact h
  | cons a acts ih =>
    obtain ⟨s₁, hok, hrest⟩ := runAll_cons_eq_ok.mp hrun
    have hstep := step_numbered hinv hacts.1 h hok
    have hall := ih ((step_inv hinv hacts.1).of_eq_ok hok) hstep (hacts.2 s₁ hok) hrest
    rwa [Nat.add_assoc, ← countP_append] at hall

end Numbered

end TcpServer

/-! ## The history of a connection -/

/-- The state in which a connection callback was made. -/
def Mark.state? : Mark → Option StateE
  | callback state => some state
  | _ => none

def Mark.isDestroyed : Mark → Bool
  | destroyed _ => true
  | _ => false

namespace Phase

variable (p : Phase) (n : ℕ)

theorem count_established_marks : (p.marks n).count .established ≤ 1 := by
  cases p <;> simp [marks, history, count_replicate]

theorem established_mem_of_event {pre post : List Mark} (h : p.marks n = pre ++ .event :: post) :
    .established ∈ pre := by
  cases pre with
  | nil => cases p <;> simp [marks, history] at h
  | cons m pre =>
    have hm : m = .established := by
      cases p <;> simp [marks, history] at h <;> exact h.1.symm
    rw [hm]
    exact mem_cons_self

theorem callbacks_history : (history n).filterMap Mark.state? = [.kConnected] := by
  have hevents : (replicate n Mark.event).filterMap Mark.state? = [] := by
    simp [Mark.state?]
  change StateE.kConnected :: (replicate n Mark.event).filterMap Mark.state? = _
  rw [hevents]

theorem callbacks_marks : (p.marks n).filterMap Mark.state? <+: [.kConnected, .kDisconnected] := by
  cases p with
  | accepted => exact nil_prefix
  | up =>
    rw [marks, callbacks_history]
    exact ⟨[.kDisconnected], rfl⟩
  | closing =>
    rw [marks, filterMap_append, callbacks_history]
    exact prefix_refl _
  | removed =>
    rw [marks, filterMap_append, callbacks_history]
    exact prefix_refl _
  | gone =>
    rw [marks, filterMap_append, callbacks_history]
    exact prefix_refl _

theorem isMapped_iff : p.isMapped = true ↔ ∀ k, .erased k ∉ p.marks n := by
  cases p <;> simp [isMapped, marks, history]

/-- Which step of its life is queued can be read off what has happened to a connection. -/
theorem mem_tasks_iff (id : ConnId) (loop : LoopId) :
    (.connectEstablished id ∈ p.tasks id loop loop ↔ .established ∉ p.marks n) ∧
      (.removeConnectionInLoop id ∈ p.tasks id loop 0 ↔
        .callback .kDisconnected ∈ p.marks n ∧ .erased 1 ∉ p.marks n) ∧
      (.connectDestroyed id ∈ p.tasks id loop loop ↔
        .erased 1 ∈ p.marks n ∧ ∀ events, .destroyed events ∉ p.marks n) := by
  cases p <;> simp [tasks, marks, history]

theorem erased_mem_marks {k : ℕ} (h : .erased k ∈ p.marks n) : k = 1 := by
  cases p <;> simp [marks, history] at h <;> exact h

theorem countP_isDestroyed_marks : (p.marks n).countP Mark.isDestroyed ≤ 1 := by
  have hevents : (replicate n Mark.event).countP Mark.isDestroyed = 0 := by
    simp [Mark.isDestroyed]
  cases p <;> simp [marks, history, Mark.isDestroyed, hevents]

theorem of_destroyed {pre post : List Mark} {events : EventMask}
    (h : p.marks n = pre ++ .destroyed events :: post) :
    .callback .kDisconnected ∈ pre ∧ events = 0 := by
  have hbefore : Mark.destroyed events ∉ history n ++ [.callback .kDisconnected, .erased 1] := by
    simp [history]
  cases p with
  | gone =>
    have hsplit : (history n ++ [.callback .kDisconnected, .erased 1]) ++ [.destroyed 0]
        = pre ++ .destroyed events :: post := by
      rw [← h, marks, append_assoc]
      rfl
    rcases append_eq_append_iff.mp hsplit with ⟨a, rfl, ha⟩ | ⟨a, hbase, ha⟩
    · refine ⟨by simp, ?_⟩
      cases a with
      | nil => exact Mark.destroyed.inj (List.cons.inj ha).1.symm
      | cons m a => simp at ha
    · cases a with
      | nil =>
        rw [append_nil] at hbase
        exact ⟨by rw [← hbase]; simp, Mark.destroyed.inj (List.cons.inj ha).1⟩
      | cons m a =>
        refine absurd ?_ hbefore
        rw [hbase, (List.cons.inj ha).1]
        simp
  | _ =>
    have hmem : Mark.destroyed events ∈ pre ++ .destroyed events :: post := by simp
    rw [← h] at hmem
    simp [marks, history] at hmem

end Phase

namespace TcpServer

theorem mem_queues_iff {s : TcpServer} {id : ConnId} {v : View} {p : Phase} {t : Task}
    (hv : s.view id = some v) (hp : AtPhase id v p) (hlife : t.isLife = true) (ht : t.id = id)
    (ℓ : LoopId) : t ∈ s.queues ℓ ↔ t ∈ p.tasks id v.conn.loop ℓ := by
  rw [← hp.books.tasks ℓ, (view_eq_some.mp hv).2.1 ℓ, mem_filter, mem_filter]
  simp [hlife, ht]

/-- **Life cycle.** In every run of the server, with any interleaving of its loops, no assertion
fails. Every connection accepted so far has its entry. `connectEstablished` is queued to its loop
until it has run, has run at most once, and has run before any dispatch. The connection callback was
made at most twice, first in `kConnected` and then in `kDisconnected`. After that
`removeConnectionInLoop` is queued to the base loop until the connection is erased; it is in
`connections_` until then, and erasing it removed one entry. From then on `connectDestroyed` is
queued to its loop until it has run; it has run at most once, after the callback in `kDisconnected`
and with no events left in the channel. -/
theorem connection_life_cycle (cfg : ServerConfig) (acts : List ServerAct)
    (hacts : Along (step cfg) Assumed start acts) :
    Yields (runAll (step cfg) start acts) fun s ↦
      (∀ id, s.conns id ≠ none ↔ 1 ≤ id ∧ id ≤ acts.countP ServerAct.isAccept) ∧
      ∀ id r, s.conns id = some r →
        r.name = cfg.connName id ∧
        ((.connectEstablished id ∈ s.queues r.loop ↔ .established ∉ r.marks) ∧
          r.marks.count .established ≤ 1 ∧
          ∀ pre post, r.marks = pre ++ .event :: post → .established ∈ pre) ∧
        r.marks.filterMap Mark.state? <+: [.kConnected, .kDisconnected] ∧
        ((.removeConnectionInLoop id ∈ s.queues 0 ↔
            .callback .kDisconnected ∈ r.marks ∧ .erased 1 ∉ r.marks) ∧
          (s.connections r.name = some id ↔ ∀ n, .erased n ∉ r.marks) ∧
          ∀ n, .erased n ∈ r.marks → n = 1) ∧
        ((.connectDestroyed id ∈ s.queues r.loop ↔
            .erased 1 ∈ r.marks ∧ ∀ events, .destroyed events ∉ r.marks) ∧
          r.marks.countP Mark.isDestroyed ≤ 1 ∧
          ∀ pre post events, r.marks = pre ++ .destroyed events :: post →
            .callback .kDisconnected ∈ pre ∧ events = Channel.kNoneEvent) := by
  have hnumbered : start.Numbered 0 := ⟨rfl, fun id ↦ by simp [start]; omega⟩
  have hrun := yields_runAll (fun _ _ h ha ↦ step_inv h ha) (start_inv cfg) hacts
  refine hrun.imp_ok fun s hok h ↦ ⟨fun id ↦ ?_, fun id r hr ↦ ?_⟩
  · rw [(runAll_numbered (start_inv cfg) hnumbered hacts hok).2 id, Nat.zero_add]
  obtain ⟨v, hv, rfl⟩ := view_of_conns hr
  obtain ⟨p, hp⟩ := h.views id v hv
  obtain ⟨n, hn⟩ := hp.books.marks
  obtain ⟨hestablish, hremove, hdestroy⟩ := p.mem_tasks_iff n id v.conn.loop
  have hmapped : s.connections v.conn.name = if p.isMapped then some id else none := by
    rw [← (view_eq_some.mp hv).2.2, hp.books.mapped]
  rw [hn, mem_queues_iff hv hp rfl rfl, mem_queues_iff hv hp rfl rfl, mem_queues_iff hv hp rfl rfl]
  refine ⟨(h.named id _ hr).1,
    ⟨hestablish, p.count_established_marks n, fun _ _ ↦ p.established_mem_of_event n⟩,
    p.callbacks_marks n, ⟨hremove, ?_, fun _ ↦ p.erased_mem_marks n⟩,
    hdestroy, p.countP_isDestroyed_marks n, fun _ _ _ ↦ p.of_destroyed n⟩
  rw [hmapped, ← p.isMapped_iff n]
  cases p.isMapped <;> simp

/-- A server with one I/O thread. -/
def oneThread : ServerConfig := ⟨['s'], ['0', ':', '8', '0'], by decide, 1, .epoll, true⟩

/-- A connection that is accepted, closed by another thread, removed and destroyed. -/
def acceptAndClose : List ServerAct :=
  [.accept LoopState.idleEnv, .functor 1 LoopState.idleEnv, .call 1 false .forceClose,
    .functor 1 LoopState.idleEnv, .functor 0 LoopState.idleEnv, .functor 1 LoopState.idleEnv]

theorem connection_life_cycle_close :
    ∃ s r, runAll (step oneThread) start acceptAndClose = .ok s ∧
      (∀ id, s.conns id ≠ none ↔ 1 ≤ id ∧ id ≤ 1) ∧ s.conns 1 = some r ∧
      r.marks = [.established, .callback .kConnected, .callback .kDisconnected, .erased 1,
        .destroyed Channel.kNoneEvent] ∧
      s.connections (oneThread.connName 1) ≠ some 1 := by
  have hidle : LoopState.idleEnv.NoReadControl := by simp [Env.NoReadControl, LoopState.idleEnv]
  have hacts : Along (step oneThread) Assumed start acceptAndClose :=
    ⟨⟨hidle, by decide⟩, fun _ _ ↦ ⟨hidle, fun _ _ ↦ ⟨rfl, fun _ _ ↦ ⟨hidle, fun _ _ ↦
      ⟨hidle, fun _ _ ↦ ⟨hidle, fun _ _ ↦ trivial⟩⟩⟩⟩⟩⟩
  have hvalue : (runAll (step oneThread) start acceptAndClose).map
      (fun s ↦ (s.conns 1).map (·.marks)) =
        .ok (some [.established, .callback .kConnected, .callback .kDisconnected, .erased 1,
          .destroyed Channel.kNoneEvent]) := by
    decide +kernel
  obtain ⟨s, hs, hobserved⟩ := map_eq_ok.mp hvalue
  obtain ⟨r, hr, hmarks⟩ := Option.map_eq_some_iff.mp hobserved
  have hlife := (connection_life_cycle oneThread acceptAndClose hacts).of_eq_ok hs
  obtain ⟨hname, -, -, ⟨-, hmapped, -⟩, -⟩ := hlife.2 1 r hr
  refine ⟨s, r, hs, hlife.1, hr, hmarks, fun hin ↦ ?_⟩
  rw [← hname, hmapped, hmarks] at hin
  exact hin 1 (by decide)

end TcpServer

end Fishnet
