import Fishnet.Net.Poller

/-!
# What a poller knows of one channel

`Net.Channel` models a channel with the entry that its poller has for it. `Refines` says that this
entry can be read off the data structures of a poller: a call on a channel changes the entry of that
channel as `Net.Channel` says, it leaves all other entries alone, and it fails when the call on the
entry fails. What the kernel is asked to watch is then determined by the entries.

Both pollers satisfy it (`PollPoller.refines`, `EPollPoller.refines`).

## Main results

* `Refines.call`, `Refines.view_run`: a call, and a run of calls, on the data structures is one on
  the entries.
* `Refines.keepsApart`: a run on many channels is one on each of them.
-/

namespace Fishnet

open Function

/-! ## Masks -/

/-- The values that `events_` can take. -/
def IsMask (e : EventMask) : Prop :=
  e = 0 ∨ e = Channel.kReadEvent ∨ e = Channel.kWriteEvent ∨
    e = Channel.kReadEvent ||| Channel.kWriteEvent

theorem ChannelCall.isMask_mask {e : EventMask} (h : IsMask e) (call : ChannelCall) :
    IsMask (call.mask e) := by
  unfold IsMask at h ⊢
  rcases h with rfl | rfl | rfl | rfl <;> cases call <;> decide

/-- The conversion to `short` keeps these values. -/
theorem IsMask.signExtend_setWidth {e : EventMask} (h : IsMask e) :
    (e.setWidth 16).signExtend 32 = e := by
  rcases h with rfl | rfl | rfl | rfl <;> decide

/-! ## Calls on one channel -/

/-- A call on a channel. -/
def Channel.perform (c : Channel) : ChannelCall → Checked Channel
  | .remove => c.remove
  | call => c.setEvents (call.mask c.events)

theorem Channel.perform_of_ne_remove {call : ChannelCall} (h : call ≠ .remove) (c : Channel) :
    c.perform call = c.setEvents (call.mask c.events) := by
  cases call with
  | remove => exact absurd rfl h
  | _ => rfl

section Family

variable {ι : Type} [DecidableEq ι]

omit [DecidableEq ι] in
theorem cast_fd_ne {fd : ι → ℕ} {c d : ι} (hfd : Injective fd) (hne : d ≠ c) :
    (fd d : ℤ) ≠ fd c := by
  intro heq
  exact hne (hfd (by exact_mod_cast heq))

/-- A call on one channel of many. -/
def callOne (f : ι → Channel) (x : ι × ChannelCall) : Checked (ι → Channel) :=
  ((f x.1).perform x.2).map (update f x.1)

/-- The poller serves the calls and asks the kernel to watch what `g` says exactly if, for each
channel alone, the calls on it go through and leave it to be watched so. -/
def KeepsApart (P : Type) [Poller P ι] (fd : ι → ℕ) (kind : PollerKind) : Prop :=
  ∀ (xs : List (ι × ChannelCall)) (g : ι → Option EventMask),
    (∃ w : Watch ι P, runAll (Watch.call fd) Watch.new xs = .ok w ∧
      ∀ c m, ((fd c : ℤ), m) ∈ w.asked ↔ g c = some m) ↔
    ∀ c, (runAll Channel.perform (Channel.new kind) ((xs.filter (·.1 = c)).map Prod.snd)).map
      (·.registration.watched) = .ok (g c)

/-- What it takes for the entries `view` to describe a poller in the states that satisfy `Inv`. -/
structure Refines {P : Type} [Poller P ι] (fd : ι → ℕ) (kind : PollerKind)
    (view : Watch ι P → ι → Channel) (Inv : Watch ι P → Prop) : Prop where
  inv_new : Inv Watch.new
  view_new : view Watch.new = fun _ ↦ Channel.new kind
  events_view : ∀ w c, (view w c).events = (w.channel c).events
  isMask : ∀ w c, Inv w → IsMask (w.channel c).events
  updateChannel : ∀ w c e, Inv w → IsMask e →
    (Poller.updateChannel fd (w.setEvents c e) c).map view =
        ((view w c).setEvents e).map (update (view w) c) ∧
      ∀ w', Poller.updateChannel fd (w.setEvents c e) c = .ok w' → Inv w'
  removeChannel : ∀ w c, Inv w → (w.channel c).events = 0 →
    (Poller.removeChannel fd (w.setRemoved c) c).map view =
        (view w c).remove.map (update (view w) c) ∧
      ∀ w', Poller.removeChannel fd (w.setRemoved c) c = .ok w' → Inv w'
  mem_asked : ∀ w, Inv w → ∀ x, x ∈ w.asked ↔
    ∃ c, x.1 = fd c ∧ (view w c).registration.watched = some x.2

namespace Refines

variable {P : Type} [Poller P ι] {fd : ι → ℕ} {kind : PollerKind} {view : Watch ι P → ι → Channel}
  {Inv : Watch ι P → Prop} {w : Watch ι P}

section

variable (h : Refines fd kind view Inv)
include h

/-- **A call on the data structures is the call on the entry.** -/
theorem call (hw : Inv w) (x : ι × ChannelCall) :
    (w.call fd x).map view = callOne (view w) x ∧ ∀ w', w.call fd x = .ok w' → Inv w' := by
  obtain ⟨c, call⟩ := x
  have hupdate := h.updateChannel w c (call.mask (w.channel c).events) hw
    (call.isMask_mask (h.isMask w c hw))
  cases call with
  | remove =>
    by_cases hevents : (w.channel c).events = 0
    · rw [Watch.call]
      change (assert ((w.channel c).events = 0) >>= fun _ ↦ _).map view = _ ∧
        ∀ w', (assert ((w.channel c).events = 0) >>= fun _ ↦ _) = .ok w' → _
      rw [assert_bind_of hevents]
      exact h.removeChannel w c hw hevents
    · have hnone : ¬(view w c).isNoneEvent = true := by
        rw [Channel.isNoneEvent_iff, h.events_view]
        exact hevents
      have hcall : w.call fd (c, .remove) = .error .assertion := assert_bind_of_not hevents _
      have hentry : callOne (view w) (c, .remove) = .error .assertion := by
        rw [callOne, Channel.perform, Channel.remove, assert_bind_of_not hnone]
        rfl
      rw [hcall, hentry]
      exact ⟨rfl, fun w' hw' ↦ by cases hw'⟩
  | _ =>
    rw [callOne, Channel.perform, h.events_view]
    · exact hupdate
    · intro hremove
      cases hremove

theorem view_runAll (hw : Inv w) (xs : List (ι × ChannelCall)) :
    (runAll (Watch.call fd) w xs).map view = runAll callOne (view w) xs :=
  map_runAll (fun _ x w' hw hx ↦ (h.call hw x).2 w' hx) (fun _ x hw ↦ (h.call hw x).1) hw xs

theorem view_run (xs : List (ι × ChannelCall)) :
    (runAll (Watch.call fd) (Watch.new : Watch ι P) xs).map view =
      runAll callOne (fun _ ↦ Channel.new kind) xs := by
  rw [← h.view_new]
  exact h.view_runAll h.inv_new xs

theorem inv_runAll {w' : Watch ι P} {xs : List (ι × ChannelCall)}
    (hw : Inv w) (hrun : runAll (Watch.call fd) w xs = .ok w') : Inv w' :=
  runAll_invariant (fun _ x w' hw hx ↦ (h.call hw x).2 w' hx) hw hrun

theorem inv_run {xs : List (ι × ChannelCall)}
    (hrun : runAll (Watch.call fd) Watch.new xs = .ok w) : Inv w :=
  h.inv_runAll h.inv_new hrun

/-- The kernel is asked to watch a channel as its entry says. -/
theorem mem_asked_fd (hfd : Injective fd) (hw : Inv w)
    (c : ι) (m : EventMask) :
    ((fd c : ℤ), m) ∈ w.asked ↔ (view w c).registration.watched = some m := by
  rw [h.mem_asked w hw]
  constructor
  · rintro ⟨d, hd, hwatched⟩
    have hcd : c = d := hfd (Nat.cast_injective hd)
    rwa [hcd]
  · intro hwatched
    exact ⟨c, rfl, hwatched⟩

end

/-- Two pollers ask the same when their entries do. -/
theorem asked_eq_iff {P' : Type} [Poller P' ι] {kind' : PollerKind}
    {view' : Watch ι P' → ι → Channel}
    {Inv' : Watch ι P' → Prop} {w' : Watch ι P'} (h : Refines fd kind view Inv)
    (h' : Refines fd kind' view' Inv') (hfd : Injective fd) (hw : Inv w) (hw' : Inv' w') :
    w.asked = w'.asked ↔
      ∀ c, (view w c).registration.watched = (view' w' c).registration.watched := by
  constructor
  · intro heq c
    refine Option.ext fun m ↦ ?_
    rw [← h.mem_asked_fd hfd hw, ← h'.mem_asked_fd hfd hw', heq]
  · intro heq
    ext x
    simp only [h.mem_asked w hw, h'.mem_asked w' hw', heq]

theorem keepsApart (h : Refines fd kind view Inv) (hfd : Injective fd) : KeepsApart P fd kind := by
  intro xs g
  have hview := h.view_run xs
  constructor
  · rintro ⟨w, hw, hasked⟩ c
    rw [hw] at hview
    rw [runAll_family.mp hview.symm c]
    refine congrArg Except.ok (Option.ext fun m ↦ ?_)
    rw [← h.mem_asked_fd hfd (h.inv_run hw), hasked]
  · intro halone
    choose f hf hg using fun c ↦ map_eq_ok.mp (halone c)
    obtain ⟨w, hw, rfl⟩ := map_eq_ok.mp (hview.trans (runAll_family.mpr hf))
    exact ⟨w, hw, fun c m ↦ by rw [h.mem_asked_fd hfd (h.inv_run hw), hg]⟩

end Refines

end Family

end Fishnet
