import Fishnet.Net.ServerDestruction

/-!
# Connections without a server

When the server has been destroyed, each of its connections has a `connectDestroyed` in the queue of
its loop, or has had its turn. Everything else it does leaves it in its phase, with two exceptions.
If it is closed, it calls back into the destroyed server. And if it has been told to shut down,
`connectDestroyed` does not take it off the poller, and the assertion of `Channel::remove` fails.

As for the living server, this is proved on views, one connection at a time.
-/

namespace Fishnet

open TcpConnection Effect Function List

/-! ## The view of a connection -/

namespace View

variable (v : View)

def applyOrphanEffect (id : ConnId) (loop : LoopId) (v : View) : Effect → Checked View
  | .closeCallback => .error .badAccess
  | e => applyEffect id loop v e

def withOrphan (id : ConnId) (op : TcpConnection → Checked TcpConnection) :
    Checked View := do
  let c ← op v.conn.conn
  runAll (applyOrphanEffect id v.conn.loop) { v with conn := { v.conn with conn := c } }
    (c.trace.drop v.conn.conn.trace.length)

variable {v}

theorem applyOrphanEffect_of_quiet {id : ConnId} {loop : LoopId} (w : View) {e : Effect}
    (he : e.isLifecycle = false) : applyOrphanEffect id loop w e = applyEffect id loop w e := by
  cases e with
  | closeCallback => cases he
  | _ => rfl

/-- A connection that is closed calls back into the destroyed server. -/
theorem withOrphan_of_closed {id : ConnId} {op : TcpConnection → Checked TcpConnection}
    {c : TcpConnection} (hop : op v.conn.conn = .ok c) (hcl : Closed v.conn.conn c) :
    v.withOrphan id op = .error .badAccess := by
  rw [withOrphan, bind_of_ok hop, hcl.2, drop_left]
  rfl

end View

namespace TcpServer

variable {cfg : ServerConfig} {s s' : TcpServer} {id : ConnId} {v : View}

theorem applyOrphanEffect_focus (id : ConnId) (loop : LoopId) (e : Effect) :
    Focus id (fun s ↦ applyOrphanEffect id loop s e)
      (fun v ↦ View.applyOrphanEffect id loop v e) := by
  cases e with
  | closeCallback => exact fun _ _ _ _ ↦ Or.inr ⟨.badAccess, rfl, rfl⟩
  | sent data => exact applyEffect_focus id loop (.sent data)
  | wrote data => exact applyEffect_focus id loop (.wrote data)
  | shutdownWrite unsent => exact applyEffect_focus id loop (.shutdownWrite unsent)
  | queueInLoop f => exact applyEffect_focus id loop (.queueInLoop f)
  | runAfter => exact applyEffect_focus id loop .runAfter
  | messageCallback => exact applyEffect_focus id loop .messageCallback
  | connectionCallback state => exact applyEffect_focus id loop (.connectionCallback state)

theorem withOrphan_focus (id : ConnId) (op : TcpConnection → Checked TcpConnection) :
    Focus id (·.withOrphan id op) (·.withOrphan id op) :=
  operation_focus (applyOrphanEffect_focus id) op

theorem withOrphan_of_none (h : s.conns id = none)
    (op : TcpConnection → Checked TcpConnection) : s.withOrphan id op = .ok s := by
  simp only [withOrphan, h]
  rfl

end TcpServer

/-! ## Phases -/

namespace Phase

/-- The functors of its life that a connection has in its own loop when the server has been
destroyed. -/
def ownTasks (id : ConnId) : Phase → List Task
  | accepted => [.connectEstablished id, .connectDestroyed id]
  | up => [.connectDestroyed id]
  | closing => [.connectDestroyed id]
  | removed => [.connectDestroyed id]
  | gone => []

/-- All functors of its life. -/
def orphanTasks (id : ConnId) (loop : LoopId) (p : Phase) (ℓ : LoopId) : List Task :=
  (if p = closing ∧ ℓ = 0 then [.removeConnectionInLoop id] else []) ++
    if ℓ = loop then p.ownTasks id else []

theorem not_isRemoval_of_mem_ownTasks {p : Phase} {id : ConnId} {t : Task}
    (ht : t ∈ p.ownTasks id) : t.isRemoval = false := by
  cases p with
  | accepted =>
    simp only [ownTasks, mem_cons, not_mem_nil, or_false] at ht
    rcases ht with rfl | rfl <;> rfl
  | gone => cases ht
  | _ =>
    rw [mem_singleton.mp ht]
    rfl

theorem orphanTasks_of_ne {p : Phase} (hp : p ≠ closing) (id : ConnId) (loop : LoopId) :
    p.orphanTasks id loop = fun ℓ ↦ if ℓ = loop then p.ownTasks id else [] := by
  funext ℓ
  rw [orphanTasks, if_neg fun h ↦ hp h.1, nil_append]

end Phase

/-- Connection `id` is in phase `p`, with the functors `q`, and `connectDestroyed` has run if the
phase says so. -/
structure Account (id : ConnId) (v : View) (p : Phase) (q : LoopId → List Task) : Prop where
  standing : Standing id v p q
  destroyed : v.conn.marks.countP Mark.isDestroyed = (decide (p = .gone)).toNat

/-- Connection `id` is in phase `p`, and the server has been destroyed. -/
def Orphaned (id : ConnId) (v : View) (p : Phase) : Prop :=
  Account id v p (p.orphanTasks id v.conn.loop)

namespace Orphaned

variable {id : ConnId} {v v' : View} {p : Phase}

variable (h : Orphaned id v p)
include h

theorem of_kept (hkept : Kept v v')
    (hstanding : Standing id v' p (p.orphanTasks id v.conn.loop)) : Orphaned id v' p := by
  refine ⟨by rwa [hkept.loop], ?_⟩
  rw [hkept.marks]
  exact h.destroyed

theorem withOrphan_stays {op : TcpConnection → Checked TcpConnection}
    (hop : Yields (op v.conn.conn) (p.Stays v.conn.conn)) :
    Yields (v.withOrphan id op) fun v' ↦ Orphaned id v' p :=
  (h.standing.withConn_stays hop fun w _ he ↦ View.applyOrphanEffect_of_quiet w he).imp
    fun _ hv' ↦ h.of_kept hv'.1 hv'.2

theorem mark_event : Orphaned id (v.mark .event) p := by
  refine ⟨⟨h.standing.conn, h.standing.agenda.tasks, h.standing.agenda.functors⟩, ?_⟩
  change (v.conn.marks ++ [Mark.event]).countP _ = _
  rw [countP_append, h.destroyed]
  rfl

/-- The next functor of its life that an orphaned connection has. -/
theorem pop_life (hp : p ≠ .closing) {ℓ : LoopId} {u : Task}
    (hu : u.isLife = true) (hhead : (v.tasks ℓ).head? = some u) :
    ∃ rest, p.ownTasks id = u :: rest ∧
      Standing id (v.pop ℓ) p fun ℓ' ↦ if ℓ' = v.conn.loop then rest else [] := by
  obtain ⟨rest, hq, hagenda⟩ := h.standing.agenda.pop_life hu hhead
  rw [Phase.orphanTasks_of_ne hp] at hq hagenda
  dsimp only at hq
  by_cases hℓ : ℓ = v.conn.loop
  · subst hℓ
    rw [if_pos rfl] at hq
    refine ⟨rest, hq, h.standing.conn, fun ℓ' ↦ ?_, hagenda.functors⟩
    rw [hagenda.tasks, update_apply]
    split <;> rfl
  · rw [if_neg hℓ] at hq
    cases hq

/-- No functor of an orphaned connection refers to the server, unless it was closing. -/
theorem not_isRemoval (hp : p ≠ .closing) {ℓ : LoopId} {t : Task}
    (ht : t ∈ v.tasks ℓ) : t.isRemoval = false := by
  cases hlife : t.isLife with
  | false =>
    cases t with
    | functor i f => rfl
    | _ => cases hlife
  | true =>
    have hmem := mem_filter.mpr ⟨ht, hlife⟩
    rw [h.standing.agenda.tasks, Phase.orphanTasks_of_ne hp] at hmem
    dsimp only at hmem
    split at hmem
    · exact Phase.not_isRemoval_of_mem_ownTasks hmem
    · cases hmem

end Orphaned

/-! ## `connectDestroyed` -/

namespace Standing

variable {id : ConnId} {v : View} {q : LoopId → List Task}

/-- `connectDestroyed` takes a connected connection off the poller. -/
theorem connectDestroyed_connected (h : Standing id v .up q)
    (hstate : v.conn.conn.state = .kConnected)
    {env : Env} (henv : env.NoReadControl) :
    ∃ v', v.connectDestroyed id env = .ok v' ∧
      Kept ((v.mark (.destroyed v.conn.conn.channel.events)).mark (.callback .kDisconnected)) v' ∧
      Standing id v' .gone q := by
  have hup : v.conn.conn.Up := h.conn
  obtain ⟨c, hc, hdown, htrace, hwatched⟩ := hup.connectDestroyed hstate henv.onConnection
  set w := v.mark (.destroyed v.conn.conn.channel.events) with hw
  have hok : v.connectDestroyed id env
      = .ok ({ w with conn := { w.conn with conn := c } }.mark (.callback .kDisconnected)) := by
    have hop : w.conn.conn.connectDestroyed env.onConnection = .ok c := hc
    refine (bind_of_ok hop _).trans ?_
    change runAll _ _ (c.trace.drop v.conn.conn.trace.length) = _
    rw [htrace, drop_left]
    rfl
  have hagenda := h.agenda.of_phase .gone (by decide)
  exact ⟨_, hok, ⟨rfl, rfl, rfl⟩, ⟨hdown, hwatched⟩, hagenda.tasks, hagenda.functors⟩

/-- One that is being shut down is still registered. -/
theorem connectDestroyed_disconnecting (h : Standing id v .up q)
    (hstate : v.conn.conn.state = .kDisconnecting) (env : Env) :
    v.connectDestroyed id env = .error .assertion := by
  have hup : v.conn.conn.Up := h.conn
  exact bind_eq_error.mpr
    (Or.inl (hup.connectDestroyed_of_disconnecting hstate env.onConnection))

end Standing

theorem TcpConnection.Up.state_eq {c : TcpConnection} (h : c.Up) (hne : c.state ≠ .kDisconnecting) :
    c.state = .kConnected := by
  have hopen := h.isOpen
  cases hstate : c.state with
  | kConnected => rfl
  | kDisconnecting => exact absurd hstate hne
  | kConnecting =>
    rw [hstate] at hopen
    cases hopen
  | kDisconnected =>
    rw [hstate] at hopen
    cases hopen

theorem countP_isDestroyed_succ {marks : List Mark} {n : ℕ} (h : marks.countP Mark.isDestroyed = n)
    (events : EventMask) (state : StateE) :
    (marks ++ [Mark.destroyed events]).countP Mark.isDestroyed = n + 1 ∧
      (marks ++ [Mark.destroyed events] ++ [Mark.callback state]).countP Mark.isDestroyed = n +
        1 := by
  have hone : (marks ++ [Mark.destroyed events]).countP Mark.isDestroyed = n + 1 := by
    rw [countP_append, h]
    rfl
  refine ⟨hone, ?_⟩
  rw [countP_append, hone]
  rfl

/-- `connectDestroyed` of a connected or a closed connection that is left to it. -/
theorem Account.connectDestroyed {id : ConnId} {v : View} {p : Phase} {q : LoopId → List Task}
    (h : Account id v p q) (hp : p = .up ∨ p = .removed)
    (hstate : v.conn.conn.state ≠ .kDisconnecting) {env : Env} (henv : env.NoReadControl) :
    ∃ v', v.connectDestroyed id env = .ok v' ∧ v'.conn.loop = v.conn.loop ∧
      Account id v' .gone q := by
  rcases hp with rfl | rfl
  · obtain ⟨v', hv', hkept, hstanding⟩ :=
      h.standing.connectDestroyed_connected (Up.state_eq h.standing.conn hstate) henv
    refine ⟨v', hv', hkept.loop, hstanding, ?_⟩
    rw [hkept.marks]
    exact (countP_isDestroyed_succ h.destroyed _ _).2
  · obtain ⟨v', hv', hkept, hstanding⟩ := h.standing.connectDestroyed env
    refine ⟨v', hv', hkept.loop, hstanding, ?_⟩
    rw [hkept.marks]
    exact (countP_isDestroyed_succ h.destroyed _ .kDisconnected).1

/-! ## The steps of a destroyed server -/

namespace TcpServer

/-- Running the functor closes no connection, and finds none that is being shut down when it
destroys it. -/
def Harmless (s : TcpServer) : Task → Prop
  | .functor id .forceCloseInLoop => ∀ r ∈ s.conns id, r.conn.state.isOpen = false
  | .connectDestroyed id => ∀ r ∈ s.conns id, r.conn.state ≠ .kDisconnecting
  | _ => True

instance (s : TcpServer) : (t : Task) → Decidable (s.Harmless t)
  | .functor _ f =>
    match f with
    | .forceCloseInLoop => inferInstanceAs (Decidable (∀ r ∈ s.conns _, _))
    | .sendInLoop _ | .shutdownInLoop | .startReadInLoop | .stopReadInLoop | .writeComplete
    | .highWaterMark _ => inferInstanceAs (Decidable True)
  | .connectDestroyed _ => inferInstanceAs (Decidable (∀ r ∈ s.conns _, _))
  | .connectEstablished _ | .removeConnectionInLoop _ => inferInstanceAs (Decidable True)

/-- The step closes no connection, and finds none that is being shut down when it destroys it. -/
def Undisturbed (s : TcpServer) : ServerAct → Prop
  | .event _ revents env => (hupCloses revents || eofCloses revents env.read) = false
  | .functor loop _ => ∀ t ∈ (s.queues loop).head?, s.Harmless t
  | _ => True

instance (s : TcpServer) : (a : ServerAct) → Decidable (s.Undisturbed a)
  | .event _ _ _ => inferInstanceAs (Decidable (_ = false))
  | .functor loop _ => inferInstanceAs (Decidable (∀ t ∈ (s.queues loop).head?, s.Harmless t))
  | .accept _ | .call _ _ _ | .timer _ => inferInstanceAs (Decidable True)

/-- Every connection is in a phase other than `closing`, and the server has been destroyed. -/
def AllOrphaned (cfg : ServerConfig) (s : TcpServer) : Prop :=
  s.Everywhere cfg fun i v ↦ ∃ p, p ≠ .closing ∧ Orphaned i v p

variable {cfg : ServerConfig} {s s' : TcpServer} {id : ConnId} {v : View}

theorem conns_ne_none_of_view (hv : s.view id = some v) : s.conns id ≠ none := by
  rw [(view_eq_some.mp hv).1]
  exact Option.some_ne_none _

variable (h : s.AllOrphaned cfg)
include h

/-- What is done with an orphaned connection leaves the others as they are. -/
theorem AllOrphaned.of_focus (hv : s.view id = some v) {s₁ : TcpServer}
    {v₁ : View} (hm : Moves id s s₁ v₁) {f : TcpServer → Checked TcpServer}
    {g : View → Checked View} (hf : Focus id f g)
    (hg : Yields (g v₁) fun v' ↦ ∃ p, p ≠ .closing ∧ Orphaned id v' p) :
    Yields (f s₁) (AllOrphaned cfg) :=
  hf.everywhere h (conns_ne_none_of_view hv) (fun _ _ _ hw ↦ hw) hm hg

theorem AllOrphaned.call (inLoop : Bool) {k : Call}
    (hk : k.isReadControl = false) :
    Yields (s.withOrphan id fun c ↦ c.call inLoop k) (AllOrphaned cfg) := by
  cases hv : s.view id with
  | none =>
    rw [view, Option.map_eq_none_iff] at hv
    rw [withOrphan_of_none hv]
    exact yields_ok h
  | some v =>
    obtain ⟨p, hp, horphan⟩ := h.views id v hv
    refine h.of_focus hv (Moves.refl hv) (withOrphan_focus id _) ?_
    exact (horphan.withOrphan_stays (horphan.standing.conn.call inLoop hk)).imp
      fun _ hv' ↦ ⟨p, hp, hv'⟩

/-- A dispatch, unless it closes the connection. -/
theorem AllOrphaned.event (hv : s.view id = some v) {m revents : EventMask}
    (hwatched : v.conn.conn.channel.registration.watched = some m) (hk : KernelReports revents)
    {env : Env} (henv : env.NoReadControl) :
    if hupCloses revents || eofCloses revents env.read then
      (s.mark id .event).withOrphan id (fun c ↦ c.handleEvent revents env) = .error .badAccess
    else Yields ((s.mark id .event).withOrphan id fun c ↦ c.handleEvent revents env)
      (AllOrphaned cfg) := by
  obtain ⟨p, hp, horphan⟩ := h.views id v hv
  obtain rfl := horphan.standing.conn.of_watched hwatched
  have hup : v.conn.conn.Up := horphan.standing.conn
  split
  next hcloses =>
    obtain ⟨c, hc, hcl⟩ := hup.handleEvent_closed hk henv hcloses
    exact (mark_focus (withOrphan_focus id _) .event).eq_error h.distinct hv
      (View.withOrphan_of_closed hc hcl)
  next hcloses =>
    refine h.of_focus hv (Moves.refl hv) (mark_focus (withOrphan_focus id _) .event) ?_
    have hbusy := hup.handleEvent_busy henv (Bool.eq_false_of_not_eq_true hcloses)
    have hstays := hbusy.imp fun _ ↦ Phase.stays_of_busy hup
    exact (horphan.mark_event.withOrphan_stays hstays).imp fun _ hv' ↦ ⟨.up, by decide, hv'⟩

/-- A functor that the connection queued, unless it closes the connection. -/
theorem AllOrphaned.functor {ℓ : LoopId} {f : Functor} {rest : List Task}
    (hq : s.queues ℓ = .functor id f :: rest) (hv : s.view id = some v) {env : Env}
    (henv : env.NoReadControl) :
    (s.Harmless (.functor id f) →
      Yields ({ s with queues := update s.queues ℓ rest }.withOrphan id fun c ↦
        c.runFunctor env f) (AllOrphaned cfg)) ∧
    (¬s.Harmless (.functor id f) →
      { s with queues := update s.queues ℓ rest }.withOrphan id
        (fun c ↦ c.runFunctor env f) = .error .badAccess) := by
  obtain ⟨hhead, hm⟩ := Moves.pop hv hq rfl
  obtain ⟨p, hp, horphan⟩ := h.views id v hv
  obtain ⟨hphase, hf⟩ := horphan.standing.agenda.functors ℓ f (mem_of_mem_head? hhead)
  have hpop : Orphaned id (v.pop ℓ) p :=
    horphan.of_kept ⟨rfl, rfl, rfl⟩ (horphan.standing.pop_functor hhead)
  have hr := (view_eq_some.mp hv).1
  constructor
  · intro hharmless
    refine h.of_focus hv hm (withOrphan_focus id _) ?_
    -- a harmless `forceCloseInLoop` finds the connection closed
    have hclose : f = .forceCloseInLoop → p ≠ .up := by
      rintro rfl rfl
      have hopen := Up.isOpen horphan.standing.conn
      rw [hharmless v.conn hr] at hopen
      cases hopen
    have hstays := hpop.standing.conn.runFunctor hphase henv hf hclose
    exact (hpop.withOrphan_stays hstays).imp fun _ hv' ↦ ⟨p, hp, hv'⟩
  · intro hharm
    obtain ⟨rfl, hopen⟩ : f = .forceCloseInLoop ∧ v.conn.conn.state.isOpen = true := by
      cases f with
      | forceCloseInLoop =>
        refine ⟨rfl, ?_⟩
        by_contra hclosed
        refine hharm fun r hr' ↦ ?_
        rw [hr] at hr'
        cases hr'
        exact Bool.eq_false_of_not_eq_true hclosed
      | _ => exact absurd trivial hharm
    have hup : p = .up := by
      by_contra hne
      rw [horphan.standing.conn.not_open hne] at hopen
      cases hopen
    subst hup
    obtain ⟨c, hc, hcl⟩ := Up.forceCloseInLoop hpop.standing.conn henv
    exact (withOrphan_focus id _).eq_error (hm.distinct h.distinct) hm.view
      (View.withOrphan_of_closed hc hcl)

/-- `connectEstablished`, which was queued before the server was destroyed. -/
theorem AllOrphaned.connectEstablished {ℓ : LoopId} {rest : List Task}
    (hq : s.queues ℓ = .connectEstablished id :: rest) (hv : s.view id = some v) {env : Env}
    (henv : env.NoReadControl) :
    Yields ({ s with queues := update s.queues ℓ rest }.connectEstablished id env)
      (AllOrphaned cfg) := by
  obtain ⟨hhead, hm⟩ := Moves.pop hv hq rfl
  obtain ⟨p, hp, horphan⟩ := h.views id v hv
  obtain ⟨own, hown, hstanding⟩ := horphan.pop_life hp rfl hhead
  refine h.of_focus hv hm (connectEstablished_focus id env) ?_
  cases p with
  | accepted =>
    cases hown
    refine (hstanding.connectEstablished henv).imp ?_
    rintro v' ⟨hkept, hup⟩
    refine ⟨.up, by decide, ?_, ?_⟩
    · rw [Phase.orphanTasks_of_ne (by decide), hkept.loop]
      exact hup
    · rw [hkept.marks]
      change (v.conn.marks ++ [Mark.established] ++ [Mark.callback .kConnected]).countP _ = _
      rw [countP_append, countP_append, horphan.destroyed]
      rfl
  | closing => exact absurd rfl hp
  | _ => cases hown

/-- `connectDestroyed`, unless the connection is being shut down. -/
theorem AllOrphaned.connectDestroyed {ℓ : LoopId} {rest : List Task}
    (hq : s.queues ℓ = .connectDestroyed id :: rest) (hv : s.view id = some v) {env : Env}
    (henv : env.NoReadControl) :
    (s.Harmless (.connectDestroyed id) →
      Yields ({ s with queues := update s.queues ℓ rest }.connectDestroyed id env)
        (AllOrphaned cfg)) ∧
    (¬s.Harmless (.connectDestroyed id) →
      { s with queues := update s.queues ℓ rest }.connectDestroyed id env
        = .error .assertion) := by
  obtain ⟨hhead, hm⟩ := Moves.pop hv hq rfl
  obtain ⟨p, hp, horphan⟩ := h.views id v hv
  obtain ⟨own, hown, hstanding⟩ := horphan.pop_life hp rfl hhead
  have hr := (view_eq_some.mp hv).1
  -- nothing of its life comes after `connectDestroyed`
  have hlast : own = [] ∧ (p = .up ∨ p = .removed) := by
    cases p with
    | up =>
      cases hown
      exact ⟨rfl, Or.inl rfl⟩
    | removed =>
      cases hown
      exact ⟨rfl, Or.inr rfl⟩
    | closing => exact absurd rfl hp
    | _ => cases hown
  obtain ⟨rfl, hphase⟩ := hlast
  constructor
  · intro hharmless
    have haccount : Account id (v.pop ℓ) p fun ℓ' ↦ if ℓ' = v.conn.loop then [] else [] :=
      ⟨hstanding, horphan.destroyed⟩
    obtain ⟨v', hv', hloop, hgone⟩ := haccount.connectDestroyed hphase (hharmless v.conn hr) henv
    refine h.of_focus hv hm (connectDestroyed_focus id env) ?_
    rw [hv']
    refine yields_ok ⟨.gone, by decide, ?_⟩
    rw [Orphaned, Phase.orphanTasks_of_ne (by decide), hloop]
    exact hgone
  · intro hharm
    have hstate : v.conn.conn.state = .kDisconnecting := by
      by_contra hne
      refine hharm fun r hr' ↦ ?_
      rw [hr] at hr'
      cases hr'
      exact hne
    -- a connection that was removed has been closed, and is not `kDisconnecting`
    have hup : p = .up := by
      rcases hphase with hup | rfl
      · exact hup
      · have hdown := Down.state horphan.standing.conn
        rw [hstate] at hdown
        cases hdown
    subst hup
    exact (connectDestroyed_focus id env).eq_error (hm.distinct h.distinct) hm.view
      (hstanding.connectDestroyed_disconnecting hstate env)

/-- **One step of a destroyed server.** It goes through exactly if it is undisturbed. -/
theorem orphanStep_spec {a : ServerAct} (ha : s.Assumed a) :
    (s.Undisturbed a → Yields (s.orphanStep a) (AllOrphaned cfg)) ∧
    (¬s.Undisturbed a → ∃ f, f ≠ .lengthError ∧ s.orphanStep a = .error f) := by
  cases a with
  | accept env => exact ⟨fun _ ↦ yields_pure h, fun hno ↦ absurd trivial hno⟩
  | event id revents env =>
    obtain ⟨henv, hk, r, m, hr, hwatched⟩ := ha
    obtain ⟨v, hv, rfl⟩ := view_of_conns hr
    have hevent := h.event hv hwatched hk henv
    refine ⟨fun hquiet ↦ ?_, fun hcloses ↦ ⟨.badAccess, by decide, ?_⟩⟩
    · rwa [if_neg (by rw [hquiet]; decide)] at hevent
    · rwa [if_pos (Bool.eq_true_of_not_eq_false hcloses)] at hevent
  | call id inLoop k => exact ⟨fun _ ↦ h.call inLoop ha, fun hno ↦ absurd trivial hno⟩
  | functor ℓ env =>
    rw [orphanStep, Undisturbed]
    split
    next hq =>
      rw [hq]
      exact ⟨fun _ ↦ yields_pure h, fun hno ↦ absurd (fun t ht ↦ by cases ht) hno⟩
    next t rest hq =>
      obtain ⟨v, hv⟩ := h.view_of_queued (t := t) (by rw [hq]; exact mem_cons_self)
      have hhead : (∀ u ∈ (s.queues ℓ).head?, s.Harmless u) ↔ s.Harmless t := by
        rw [hq]
        simp
      rw [hhead]
      cases t with
      | connectEstablished id =>
        exact ⟨fun _ ↦ h.connectEstablished hq hv ha, fun hno ↦ absurd trivial hno⟩
      | functor id f =>
        obtain ⟨hok, herr⟩ := h.functor hq hv ha
        exact ⟨hok, fun hno ↦ ⟨.badAccess, by decide, herr hno⟩⟩
      | removeConnectionInLoop id =>
        -- there is no such functor
        obtain ⟨p, hp, horphan⟩ := h.views id v hv
        have hmem := mem_of_mem_head? (Moves.pop hv hq rfl).1
        cases horphan.not_isRemoval hp hmem
      | connectDestroyed id =>
        obtain ⟨hok, herr⟩ := h.connectDestroyed hq hv ha
        exact ⟨hok, fun hno ↦ ⟨.assertion, by decide, herr hno⟩⟩
  | timer id =>
    refine ⟨fun _ ↦ ?_, fun hno ↦ absurd trivial hno⟩
    rw [orphanStep]
    split
    · exact yields_pure h
    · set t : TcpServer := { s with delayed := update s.delayed id (s.delayed id - 1) }
      have ht : t.AllOrphaned cfg := ⟨h.named, h.small, h.queued, h.views⟩
      exact ht.call true (k := .forceClose) rfl

end TcpServer

end Fishnet
