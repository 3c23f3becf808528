import Fishnet.Net.TcpServer

/-!
# The server seen from one connection

A `View` is what a state of the server says about one connection: its record, its functors in the
queues, and what `connections_` has under its name. Everything the server does on behalf of a
connection can be done on the view alone, and leaves the views of all other connections as they are:
this is `Focus`. With it a property of every connection under every interleaving is proved by
looking at one connection.

Connections do not get into each other's way because their names differ, `connName_injective`:
within 63 characters there is room for the address and a number of ten digits.
-/

namespace Fishnet

open TcpConnection Function List

/-! ## Names -/

theorem length_toDigits_le_ten {id : ConnId} (h : id < 2 ^ 31) :
    (Nat.toDigits 10 id).length ≤ 10 := by
  rw [Nat.length_toDigits_le_iff (by decide) (by decide)]
  exact h.trans (by decide)

/-- `snprintf` does not cut the name of a connection. -/
theorem ServerConfig.connName_eq (cfg : ServerConfig) {id : ConnId} (h : id < 2 ^ 31) :
    cfg.connName id = cfg.name ++ ('-' :: cfg.ipPort ++ '#' :: Nat.toDigits 10 id) := by
  have hdigits := length_toDigits_le_ten h
  have hshort := cfg.ipPort_short
  rw [connName, take_of_length_le]
  simp only [length_append, length_cons]
  omega

theorem ServerConfig.connName_injective (cfg : ServerConfig) {i j : ConnId} (hi : i < 2 ^ 31)
    (hj : j < 2 ^ 31) (h : cfg.connName i = cfg.connName j) : i = j := by
  rw [cfg.connName_eq hi, cfg.connName_eq hj] at h
  have hdigits : Nat.toDigits 10 i = Nat.toDigits 10 j := by
    simpa using h
  have hof := congrArg (fun l ↦ Nat.ofDigitChars 10 l 0) hdigits
  simpa [Nat.ofDigitChars_ten_toDigits] using hof

/-! ## Views -/

def Task.id : Task → ConnId
  | connectEstablished id => id
  | functor id _ => id
  | removeConnectionInLoop id => id
  | connectDestroyed id => id

/-- What a state of the server says about one connection. -/
structure View where
  conn : ServerConn
  /-- The functors of the connection in each queue. -/
  tasks : LoopId → List Task
  /-- What `connections_` has under its name. -/
  mapped : Option ConnId

namespace View

variable (v : View)

def queue (loop : LoopId) (t : Task) : View :=
  { v with tasks := update v.tasks loop (v.tasks loop ++ [t]) }

@[simp] theorem queue_tasks_self (loop : LoopId) (t : Task) :
    (v.queue loop t).tasks loop = v.tasks loop ++ [t] :=
  update_self ..

theorem queue_tasks_of_ne {ℓ loop : LoopId} (h : ℓ ≠ loop) (t : Task) :
    (v.queue loop t).tasks ℓ = v.tasks ℓ :=
  update_of_ne h ..

theorem mem_queue_tasks {v : View} {ℓ loop : LoopId} {t u : Task} :
    u ∈ (v.queue loop t).tasks ℓ ↔ u ∈ v.tasks ℓ ∨ ℓ = loop ∧ u = t := by
  rcases eq_or_ne ℓ loop with rfl | hne
  · simp
  · simp [queue_tasks_of_ne v hne, hne]

/-- The next functor of a queue is taken out. -/
def pop (loop : LoopId) : View :=
  { v with tasks := update v.tasks loop (v.tasks loop).tail }

@[simp] theorem pop_tasks_self (loop : LoopId) : (v.pop loop).tasks loop = (v.tasks loop).tail :=
  update_self ..

theorem pop_tasks_of_ne {ℓ loop : LoopId} (h : ℓ ≠ loop) : (v.pop loop).tasks ℓ = v.tasks ℓ :=
  update_of_ne h ..

theorem mem_of_mem_pop_tasks {v : View} {ℓ loop : LoopId} {u : Task}
    (h : u ∈ (v.pop loop).tasks ℓ) : u ∈ v.tasks ℓ := by
  rcases eq_or_ne ℓ loop with rfl | hne
  · rw [pop_tasks_self] at h
    exact mem_of_mem_tail h
  · rwa [pop_tasks_of_ne v hne] at h

def mark (m : Mark) : View := { v with conn := { v.conn with marks := v.conn.marks ++ [m] } }

def removeConnectionInLoop (id : ConnId) : Checked View := do
  let n := if v.mapped.isSome then 1 else 0
  assert (n = 1)
  pure ({ v.mark (.erased n) with mapped := none }.queue v.conn.loop (.connectDestroyed id))

def removeConnection (loop : LoopId) (id : ConnId) : Checked View :=
  if loop = 0 then v.removeConnectionInLoop id
  else pure (v.queue 0 (.removeConnectionInLoop id))

def applyEffect (id : ConnId) (loop : LoopId) (v : View) : Effect → Checked View
  | .queueInLoop f => pure (v.queue loop (.functor id f))
  | .connectionCallback state => pure (v.mark (.callback state))
  | .closeCallback => v.removeConnection loop id
  | _ => pure v

def withConn (id : ConnId) (op : TcpConnection → Checked TcpConnection) :
    Checked View := do
  let c ← op v.conn.conn
  runAll (applyEffect id v.conn.loop) { v with conn := { v.conn with conn := c } }
    (c.trace.drop v.conn.conn.trace.length)

def connectDestroyed (id : ConnId) (env : Env) : Checked View :=
  (v.mark (.destroyed v.conn.conn.channel.events)).withConn id fun c ↦
    c.connectDestroyed env.onConnection

end View

namespace TcpServer

/-- The view of a connection. -/
def view (s : TcpServer) (id : ConnId) : Option View :=
  (s.conns id).map fun r ↦ ⟨r, fun ℓ ↦ (s.queues ℓ).filter (·.id = id), s.connections r.name⟩

/-- No two connections have the same name. -/
def Distinct (s : TcpServer) : Prop :=
  ∀ i j ri rj, s.conns i = some ri → s.conns j = some rj → ri.name = rj.name → i = j

/-- The server moves, on behalf of connection `id`, to a state in which that connection has the view
`v`. -/
structure Moves (id : ConnId) (s s' : TcpServer) (v : View) : Prop where
  view : s'.view id = some v
  others : ∀ i ≠ id, s'.view i = s.view i
  names : ∀ i, (s'.conns i).map (·.name) = (s.conns i).map (·.name)
  nextConnId : s'.nextConnId = s.nextConnId
  tasks : ∀ ℓ, ∀ t ∈ s'.queues ℓ, t ∈ s.queues ℓ ∨ t.id = id

/-- What `f` does to the server is what `g` does to the view of connection `id`. -/
def Focus (id : ConnId) (f : TcpServer → Checked TcpServer) (g : View → Checked View) : Prop :=
  ∀ s v, s.Distinct → s.view id = some v →
    (∃ s' v', f s = .ok s' ∧ g v = .ok v' ∧ Moves id s s' v') ∨
    ∃ e, f s = .error e ∧ g v = .error e

variable {s s' s'' : TcpServer} {id : ConnId} {v v' : View}

theorem view_eq_some : s.view id = some v ↔ s.conns id = some v.conn ∧
    (∀ ℓ, v.tasks ℓ = (s.queues ℓ).filter (·.id = id)) ∧
    v.mapped = s.connections v.conn.name := by
  rw [view, Option.map_eq_some_iff]
  constructor
  · rintro ⟨r, hr, rfl⟩
    exact ⟨hr, fun _ ↦ rfl, rfl⟩
  · rintro ⟨hr, htasks, hmapped⟩
    obtain ⟨r, tasks, mapped⟩ := v
    exact ⟨r, hr, by rw [View.mk.injEq]; exact ⟨rfl, (funext htasks).symm, hmapped.symm⟩⟩

theorem Moves.distinct (h : Moves id s s' v) (hs : s.Distinct) : s'.Distinct := by
  intro i j ri rj hi hj hname
  have hi' := h.names i
  have hj' := h.names j
  rw [hi, Option.map_some, eq_comm, Option.map_eq_some_iff] at hi'
  rw [hj, Option.map_some, eq_comm, Option.map_eq_some_iff] at hj'
  obtain ⟨ri', hri', hni⟩ := hi'
  obtain ⟨rj', hrj', hnj⟩ := hj'
  exact hs i j ri' rj' hri' hrj' (by rw [hni, hnj, hname])

theorem Moves.trans (h : Moves id s s' v) (h' : Moves id s' s'' v') : Moves id s s'' v' := by
  refine ⟨h'.view, fun i hi ↦ (h'.others i hi).trans (h.others i hi),
    fun i ↦ (h'.names i).trans (h.names i), h'.nextConnId.trans h.nextConnId, fun ℓ t ht ↦ ?_⟩
  rcases h'.tasks ℓ t ht with ht | ht
  · exact h.tasks ℓ t ht
  · exact Or.inr ht

theorem Focus.bind {f f' : TcpServer → Checked TcpServer} {g g' : View → Checked View}
    (h : Focus id f g) (h' : Focus id f' g') :
    Focus id (fun s ↦ f s >>= f') (fun v ↦ g v >>= g') := by
  intro s v hs hv
  rcases h s v hs hv with ⟨s', v', hf, hg, hm⟩ | ⟨e, hf, hg⟩
  · have hf' := bind_of_ok hf f'
    have hg' := bind_of_ok hg g'
    rcases h' s' v' (hm.distinct hs) hm.view with ⟨s'', v'', hs'', hv'', hm'⟩ | ⟨e, hs'', hv''⟩
    · exact Or.inl ⟨s'', v'', hf'.trans hs'', hg'.trans hv'', hm.trans hm'⟩
    · exact Or.inr ⟨e, hf'.trans hs'', hg'.trans hv''⟩
  · exact Or.inr ⟨e, congrArg (· >>= f') hf, congrArg (· >>= g') hg⟩

theorem Focus.of_moves {f : TcpServer → TcpServer} {g : View → View}
    (h : ∀ s v, s.Distinct → s.view id = some v → Moves id s (f s) (g v)) :
    Focus id (fun s ↦ pure (f s)) (fun v ↦ pure (g v)) :=
  fun s v hs hv ↦ Or.inl ⟨f s, g v, rfl, rfl, h s v hs hv⟩

theorem Moves.refl (hv : s.view id = some v) : Moves id s s v :=
  ⟨hv, fun _ _ ↦ rfl, fun _ ↦ rfl, rfl, fun _ _ ht ↦ Or.inl ht⟩

theorem Focus.runAll {α : Type} {f : TcpServer → α → Checked TcpServer}
    {g : View → α → Checked View} (h : ∀ a, Focus id (fun s ↦ f s a) (fun v ↦ g v a))
    (as : List α) : Focus id (fun s ↦ runAll f s as) (fun v ↦ runAll g v as) := by
  induction as with
  | nil => exact fun s v _ hv ↦ Or.inl ⟨s, v, rfl, rfl, Moves.refl hv⟩
  | cons a as ih => exact (h a).bind ih

/-! ## The primitives -/

theorem view_congr {i : ConnId} (hconns : s'.conns i = s.conns i)
    (hqueues : ∀ ℓ, (s'.queues ℓ).filter (·.id = i) = (s.queues ℓ).filter (·.id = i))
    (hmapped : ∀ r, s.conns i = some r → s'.connections r.name = s.connections r.name) :
    s'.view i = s.view i := by
  rw [view, view, hconns]
  refine Option.map_congr fun r hr ↦ ?_
  rw [View.mk.injEq]
  exact ⟨rfl, funext hqueues, hmapped r hr⟩

theorem Moves.queueInLoop (hv : s.view id = some v) {t : Task} (ht : t.id = id) (loop : LoopId) :
    Moves id s (s.queueInLoop loop t) (v.queue loop t) := by
  obtain ⟨hr, htasks, hmapped⟩ := view_eq_some.mp hv
  refine ⟨view_eq_some.mpr ⟨hr, fun ℓ ↦ ?_, hmapped⟩,
    fun i hi ↦ view_congr rfl (fun ℓ ↦ ?_) fun _ _ ↦ rfl, fun _ ↦ rfl, rfl, fun ℓ u hu ↦ ?_⟩
  · rcases eq_or_ne ℓ loop with rfl | hne
    · simp [View.queue, TcpServer.queueInLoop, htasks, ht]
    · simp [View.queue, TcpServer.queueInLoop, htasks, hne]
  · rcases eq_or_ne ℓ loop with rfl | hne
    · simp [TcpServer.queueInLoop, ht, hi.symm]
    · simp [TcpServer.queueInLoop, hne]
  · rcases eq_or_ne ℓ loop with rfl | hne
    · simp only [TcpServer.queueInLoop, update_self, mem_append,
        mem_singleton] at hu
      rcases hu with hu | rfl
      · exact Or.inl hu
      · exact Or.inr ht
    · simp only [TcpServer.queueInLoop, update_of_ne hne] at hu
      exact Or.inl hu

/-- A change to the record of the connection that keeps its name. -/
theorem Moves.of_conns {r : ServerConn} (hv : s.view id = some v) (hname : r.name = v.conn.name) :
    Moves id s { s with conns := update s.conns id (some r) } { v with conn := r } := by
  obtain ⟨hr, htasks, hmapped⟩ := view_eq_some.mp hv
  refine ⟨view_eq_some.mpr ⟨update_self .., htasks, ?_⟩, fun i hi ↦ view_congr
    (update_of_ne hi ..) (fun _ ↦ rfl) fun _ _ ↦ rfl, fun i ↦ ?_, rfl, fun _ _ ↦ Or.inl⟩
  · rw [hmapped, hname]
  · rcases eq_or_ne i id with rfl | hi
    · simp [hr, hname]
    · simp [hi]

theorem Moves.mark (hv : s.view id = some v) (m : Mark) : Moves id s (s.mark id m) (v.mark m) := by
  have hr := (view_eq_some.mp hv).1
  have h := Moves.of_conns (r := { v.conn with marks := v.conn.marks ++ [m] }) hv rfl
  rw [TcpServer.mark, hr]
  exact h

/-- The entry under the name of the connection is erased. Names are distinct, so it is nobody
else's. -/
theorem Moves.erase (hs : s.Distinct) (hv : s.view id = some v) :
    Moves id s { s with connections := update s.connections v.conn.name none }
      { v with mapped := none } := by
  obtain ⟨hr, htasks, hmapped⟩ := view_eq_some.mp hv
  refine ⟨view_eq_some.mpr ⟨hr, htasks, ?_⟩, fun i hi ↦ view_congr rfl (fun _ ↦ rfl) fun r hri ↦ ?_,
    fun _ ↦ rfl, rfl, fun _ _ ↦ Or.inl⟩
  · simp
  · have hne : r.name ≠ v.conn.name := fun h ↦ hi (hs i id r v.conn hri hr h)
    simp [hne]

/-- The next functor is taken out of a queue. -/
theorem Moves.pop (hv : s.view id = some v) {ℓ : LoopId} {t : Task} {rest : List Task}
    (hq : s.queues ℓ = t :: rest) (ht : t.id = id) :
    (v.tasks ℓ).head? = some t ∧
      Moves id s { s with queues := update s.queues ℓ rest } (v.pop ℓ) := by
  obtain ⟨hr, htasks, hmapped⟩ := view_eq_some.mp hv
  have hhead : v.tasks ℓ = t :: rest.filter (·.id = id) := by
    rw [htasks, hq, filter_cons, if_pos (by simpa using ht)]
  refine ⟨by rw [hhead]; rfl, view_eq_some.mpr ⟨hr, fun ℓ' ↦ ?_, hmapped⟩,
    fun i hi ↦ view_congr rfl (fun ℓ' ↦ ?_) fun _ _ ↦ rfl, fun _ ↦ rfl, rfl,
      fun ℓ' u hu ↦ Or.inl ?_⟩
  · rcases eq_or_ne ℓ' ℓ with rfl | hne
    · simp [hhead]
    · simp [View.pop_tasks_of_ne v hne, hne, htasks]
  · rcases eq_or_ne ℓ' ℓ with rfl | hne
    · simp [hq, ht, hi.symm]
    · simp [hne]
  · rcases eq_or_ne ℓ' ℓ with rfl | hne
    · rw [hq]
      simp only [update_self] at hu
      exact mem_cons_of_mem _ hu
    · simpa only [update_of_ne hne] using hu

/-! ## The functions of the server -/

theorem removeConnectionInLoop_focus (id : ConnId) :
    Focus id (·.removeConnectionInLoop id) (·.removeConnectionInLoop id) := by
  intro s v hs hv
  obtain ⟨hr, -, hmapped⟩ := view_eq_some.mp hv
  simp only [removeConnectionInLoop, hr, View.removeConnectionInLoop, hmapped]
  by_cases hin : (s.connections v.conn.name).isSome
  · left
    rw [if_pos hin]
    have hmark := Moves.mark hv (.erased 1)
    have herase := Moves.erase (hmark.distinct hs) hmark.view
    exact ⟨_, _, rfl, rfl, (hmark.trans herase).trans (Moves.queueInLoop herase.view rfl _)⟩
  · right
    rw [if_neg hin]
    exact ⟨.assertion, rfl, rfl⟩

theorem removeConnection_focus (id : ConnId) (loop : LoopId) :
    Focus id (·.removeConnection loop id) (·.removeConnection loop id) := by
  by_cases hloop : loop = 0
  · simp only [removeConnection, View.removeConnection, if_pos hloop]
    exact removeConnectionInLoop_focus id
  · simp only [removeConnection, View.removeConnection, if_neg hloop]
    exact Focus.of_moves fun s v _ hv ↦ Moves.queueInLoop hv rfl 0

theorem applyEffect_focus (id : ConnId) (loop : LoopId) (e : Effect) :
    Focus id (fun s ↦ applyEffect id loop s e) (fun v ↦ View.applyEffect id loop v e) := by
  cases e with
  | queueInLoop f => exact Focus.of_moves fun s v _ hv ↦ Moves.queueInLoop hv rfl loop
  | connectionCallback state => exact Focus.of_moves fun s v _ hv ↦ Moves.mark hv _
  | closeCallback => exact removeConnection_focus id loop
  | runAfter =>
    exact Focus.of_moves fun s v _ hv ↦
      ⟨hv, fun _ _ ↦ rfl, fun _ ↦ rfl, rfl, fun _ _ ht ↦ Or.inl ht⟩
  | _ => exact Focus.of_moves fun s v _ hv ↦ Moves.refl hv

/-- An operation of a connection and its effects, whatever the server makes of an effect. -/
theorem operation_focus {f : LoopId → TcpServer → Effect → Checked TcpServer}
    {g : LoopId → View → Effect → Checked View}
    (h : ∀ loop e, Focus id (fun s ↦ f loop s e) (fun v ↦ g loop v e))
    (op : TcpConnection → Checked TcpConnection) :
    Focus id
      (fun s ↦ match s.conns id with
        | none => pure s
        | some r => op r.conn >>= fun c ↦
          runAll (f r.loop)
            { s with conns := update s.conns id (some { r with conn := c }) }
            (c.trace.drop r.conn.trace.length))
      (fun v ↦ op v.conn.conn >>= fun c ↦
        runAll (g v.conn.loop) { v with conn := { v.conn with conn := c } }
          (c.trace.drop v.conn.conn.trace.length)) := by
  intro s v hs hv
  have hr := (view_eq_some.mp hv).1
  simp only [hr]
  cases hop : op v.conn.conn with
  | error e => exact Or.inr ⟨e, rfl, rfl⟩
  | ok c =>
    have hconn := Moves.of_conns (r := { v.conn with conn := c }) hv rfl
    have hrun := Focus.runAll (h v.conn.loop)
      (c.trace.drop v.conn.conn.trace.length) _ _ (hconn.distinct hs) hconn.view
    rcases hrun with ⟨s', v', hs', hv', hm⟩ | ⟨e, hs', hv'⟩
    · exact Or.inl ⟨s', v', hs', hv', hconn.trans hm⟩
    · exact Or.inr ⟨e, hs', hv'⟩

/-- **The server on behalf of a connection.** -/
theorem withConn_focus (id : ConnId) (op : TcpConnection → Checked TcpConnection) :
    Focus id (·.withConn id op) (·.withConn id op) :=
  operation_focus (applyEffect_focus id) op

theorem mark_focus {f : TcpServer → Checked TcpServer} {g : View → Checked View}
    (h : Focus id f g) (m : Mark) : Focus id (fun s ↦ f (s.mark id m)) (fun v ↦ g (v.mark m)) :=
  (Focus.of_moves fun _ _ _ hv ↦ Moves.mark hv m).bind h

theorem connectEstablished_focus (id : ConnId) (env : Env) :
    Focus id (·.connectEstablished id env) fun v ↦
      (v.mark .established).withConn id fun c ↦ c.connectEstablished env.onConnection :=
  mark_focus (withConn_focus id _) _

theorem connectDestroyed_focus (id : ConnId) (env : Env) :
    Focus id (·.connectDestroyed id env) (·.connectDestroyed id env) := by
  intro s v hs hv
  have hr := (view_eq_some.mp hv).1
  simp only [connectDestroyed, hr, View.connectDestroyed]
  exact mark_focus (withConn_focus id _) _ s v hs hv

/-! ## All connections -/

/-- The books of the server are in order, and every connection has a view that `K` allows. -/
structure Everywhere (cfg : ServerConfig) (K : ConnId → View → Prop) (s : TcpServer) : Prop where
  named : ∀ i r, s.conns i = some r → r.name = cfg.connName i ∧ i < s.nextConnId
  small : s.nextConnId ≤ 2 ^ 31
  queued : ∀ ℓ, ∀ t ∈ s.queues ℓ, s.conns t.id ≠ none
  views : ∀ i v, s.view i = some v → K i v

variable {cfg : ServerConfig} {K K' : ConnId → View → Prop}

theorem view_of_conns {r : ServerConn} (h : s.conns id = some r) :
    ∃ v, s.view id = some v ∧ v.conn = r :=
  ⟨_, by rw [view, h]; rfl, rfl⟩

theorem Everywhere.distinct (h : s.Everywhere cfg K) : s.Distinct := by
  intro i j ri rj hi hj hname
  obtain ⟨hni, hli⟩ := h.named i ri hi
  obtain ⟨hnj, hlj⟩ := h.named j rj hj
  refine cfg.connName_injective (hli.trans_le h.small) (hlj.trans_le h.small) ?_
  rw [← hni, ← hnj, hname]

theorem Everywhere.view_of_queued (h : s.Everywhere cfg K) {ℓ : LoopId} {t : Task}
    (ht : t ∈ s.queues ℓ) : ∃ v, s.view t.id = some v := by
  obtain ⟨r, hr⟩ := Option.ne_none_iff_exists'.mp (h.queued ℓ t ht)
  obtain ⟨v, hv, -⟩ := view_of_conns hr
  exact ⟨v, hv⟩

/-- What is done on behalf of one connection changes the view of that connection only. -/
theorem Everywhere.of_moves (h : s.Everywhere cfg K) (hpresent : s.conns id ≠ none)
    (hm : Moves id s s' v) (hothers : ∀ i w, i ≠ id → K i w → K' i w) (hv : K' id v) :
    s'.Everywhere cfg K' := by
  have hsome : ∀ i, s.conns i ≠ none → s'.conns i ≠ none := by
    intro i hi hnone
    have hname := hm.names i
    rw [hnone, Option.map_none, eq_comm, Option.map_eq_none_iff] at hname
    exact hi hname
  refine ⟨fun i r hr ↦ ?_, hm.nextConnId ▸ h.small, fun ℓ t ht ↦ ?_, fun i w hw ↦ ?_⟩
  · have hname := hm.names i
    rw [hr, Option.map_some, eq_comm, Option.map_eq_some_iff] at hname
    obtain ⟨r', hr', hrr⟩ := hname
    rw [hm.nextConnId, ← hrr]
    exact h.named i r' hr'
  · rcases hm.tasks ℓ t ht with ht | ht
    · exact hsome _ (h.queued ℓ t ht)
    · exact hsome _ (ht ▸ hpresent)
  · rcases eq_or_ne i id with rfl | hi
    · rw [hm.view] at hw
      cases hw
      exact hv
    · rw [hm.others i hi] at hw
      exact hothers i w hi (h.views i w hw)

/-- What a focused function yields for the view, it yields for the server. -/
theorem Focus.everywhere {f : TcpServer → Checked TcpServer} {g : View → Checked View}
    (hf : Focus id f g) {s₀ : TcpServer} (h : s₀.Everywhere cfg K) (hpresent : s₀.conns id ≠ none)
    (hothers : ∀ i w, i ≠ id → K i w → K' i w) (hm : Moves id s₀ s v) (hg : Yields (g v) (K' id)) :
    Yields (f s) (Everywhere cfg K') := by
  rcases hf s v (hm.distinct h.distinct) hm.view with ⟨s', v', hs', hv', hm'⟩ | ⟨e, hs', hv'⟩
  · exact Or.inl ⟨s', hs', h.of_moves hpresent (hm.trans hm') hothers (hg.of_eq_ok hv')⟩
  · rcases hg with ⟨v', hv'', -⟩ | herr
    · rw [hv'] at hv''
      cases hv''
    · rw [hv'] at herr
      cases herr
      exact Or.inr hs'

/-- A focused function fails as it fails for the view. -/
theorem Focus.eq_error {f : TcpServer → Checked TcpServer} {g : View → Checked View}
    (hf : Focus id f g) (hs : s.Distinct) (hv : s.view id = some v) {e : Fault}
    (hg : g v = .error e) : f s = .error e := by
  rcases hf s v hs hv with ⟨s', v', -, hv', -⟩ | ⟨e', hs', hv'⟩
  · rw [hg] at hv'
    cases hv'
  · rw [hg] at hv'
    cases hv'
    exact hs'

end TcpServer

end Fishnet
