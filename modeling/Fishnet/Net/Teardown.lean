import Fishnet.Net.EPollPollerEntry
import Fishnet.Net.PollPollerEntry

/-!
# Tearing a channel down

`Acceptor`, `TimerQueue`, `EventLoop` and `Connector` give up a channel by `disableAll()` followed
by `remove()`. Whether the assertions on that path hold depends on what the poller has for the
channel, and this on all that was done with it before.

For `EPollPoller` nothing can go wrong: whatever `index_` is after `disableAll`, it is one of the
two that `removeChannel` accepts. `PollPoller::removeChannel` asks for an ignored entry, one whose
descriptor is negated. An update negates the descriptor of an entry that is there already, and not
that of an entry it creates. So the `disableAll` of the teardown must not be the first update: a
channel that was never enabled or disabled before, such as that of an `Acceptor` that never
listened, trips the assertion.

## Main results

* `teardown_legal_iff`: with `EPollPoller` the teardown is legal after any calls, with `PollPoller`
  exactly after at least one.
-/

namespace Fishnet

open Function

/-- The calls on a channel until it is removed, the teardown included. -/
def withTeardown (calls : List ChannelCall) : List ChannelCall := calls ++ [.disableAll, .remove]

/-! ## One channel -/

namespace Channel

variable {c : Channel}

theorem poller_setEvents {c' : Channel} {e : EventMask} (h : c.setEvents e = .ok c') :
    c'.poller = c.poller := by
  obtain ⟨r, -, hpure⟩ := bind_eq_ok.mp h
  rw [pure_eq_ok] at hpure
  rw [← hpure]

/-- Updates go through, and after the first one the channel is tracked. -/
theorem runAll_perform {calls : List ChannelCall} (hcalls : .remove ∉ calls) (h : c.Consistent) :
    ∃ c', runAll perform c calls = .ok c' ∧ c'.Consistent ∧ c'.poller = c.poller ∧
      (c.Tracked ∨ calls ≠ [] → c'.Tracked) := by
  induction calls generalizing c with
  | nil =>
    refine ⟨c, rfl, h, rfl, ?_⟩
    rintro (ht | hne)
    · exact ht
    · exact absurd rfl hne
  | cons call calls ih =>
    rw [List.mem_cons, not_or] at hcalls
    obtain ⟨c₁, hc₁, -, htracked, -⟩ := setEvents_spec h (call.mask c.events)
    obtain ⟨c₂, hc₂, hconsistent, hpoller, htracked₂⟩ := ih hcalls.2 htracked.consistent
    refine ⟨c₂, runAll_cons_eq_ok.mpr ⟨c₁, ?_, hc₂⟩, hconsistent, ?_, ?_⟩
    · rw [perform_of_ne_remove (Ne.symm hcalls.1), hc₁]
    · rw [hpoller, poller_setEvents hc₁]
    · intro _
      exact htracked₂ (Or.inl htracked)

/-- What is left of a channel after its teardown. -/
def TornDown (c : Channel) : Prop :=
  c.addedToLoop = false ∧ c.registration.inChannels = false ∧ c.registration.watched = none

theorem remove_tornDown (h : c.Removable) : ∃ c', c.remove = .ok c' ∧ c'.TornDown := by
  obtain ⟨c', hc', -, hin, hwatched⟩ := remove_spec h
  refine ⟨c', hc', ?_, hin, hwatched⟩
  obtain ⟨-, hrest⟩ := assert_bind_eq_ok.mp hc'
  obtain ⟨r, -, hpure⟩ := bind_eq_ok.mp hrest
  rw [pure_eq_ok] at hpure
  rw [← hpure]

theorem teardown_of_tracked (h : c.Tracked) :
    ∃ c', runAll perform c [.disableAll, .remove] = .ok c' ∧ c'.TornDown := by
  obtain ⟨c₁, hc₁, -, -, hremovable⟩ := setEvents_spec h.consistent kNoneEvent
  obtain ⟨c₂, hc₂, htorn⟩ := remove_tornDown (hremovable h rfl)
  exact ⟨c₂, runAll_cons_eq_ok.mpr ⟨c₁, hc₁, runAll_cons_eq_ok.mpr ⟨c₂, hc₂, rfl⟩⟩, htorn⟩

/-- **One channel.** A new channel can be torn down, with `PollPoller` after at least one call. -/
theorem teardown_new_iff (kind : PollerKind) {calls : List ChannelCall}
    (hcalls : .remove ∉ calls) :
    (∃ c, runAll perform (new kind) (withTeardown calls) = .ok c ∧ c.TornDown) ↔
      kind = .poll → calls ≠ [] := by
  rcases eq_or_ne calls [] with rfl | hne
  · cases kind with
    | poll =>
      have herror : runAll perform (new .poll) (withTeardown []) = .error .assertion := rfl
      rw [herror]
      simp
    | epoll =>
      refine iff_of_true ⟨_, rfl, rfl, rfl, rfl⟩ ?_
      intro h
      cases h
  · obtain ⟨c₁, hc₁, -, -, htracked⟩ := runAll_perform hcalls (consistent_new kind)
    obtain ⟨c₂, hc₂, htorn⟩ := teardown_of_tracked (htracked (Or.inr hne))
    exact iff_of_true ⟨c₂, runAll_append_eq_ok.mpr ⟨c₁, hc₁, hc₂⟩, htorn⟩ fun _ ↦ hne

end Channel

/-! ## One channel of many -/

section Family

variable {ι : Type} [DecidableEq ι]

theorem runAll_callOne (f : ι → Channel) (c : ι) (calls : List ChannelCall) :
    runAll callOne f (calls.map (c, ·)) =
      (runAll Channel.perform (f c) calls).map (update f c) := by
  induction calls generalizing f with
  | nil => exact congrArg Except.ok (update_eq_self c f).symm
  | cons call calls ih =>
    rw [List.map_cons, runAll, runAll, callOne]
    cases hcall : (f c).perform call with
    | error e => rfl
    | ok x =>
      change runAll callOne (update f c x) _ = (runAll Channel.perform x calls).map _
      rw [ih, update_self]
      congr 1
      funext y
      rw [update_idem]

namespace Refines

variable {P : Type} [Poller P ι] {fd : ι → ℕ} {kind : PollerKind} {view : Watch ι P → ι → Channel}
  {Inv : Watch ι P → Prop} {w w' : Watch ι P} {c : ι}

variable (h : Refines fd kind view Inv)
include h

/-- A teardown on the data structures is one on the entry. -/
theorem teardown_iff (hw : Inv w)
    (hnew : view w c = Channel.new kind) {calls : List ChannelCall} (hcalls : .remove ∉ calls) :
    (∃ w', runAll (Watch.call fd) w ((withTeardown calls).map (c, ·)) = .ok w' ∧ Inv w' ∧
        (view w' c).TornDown ∧ ∀ d, d ≠ c → view w' d = view w d) ↔
      kind = .poll → calls ≠ [] := by
  rw [← Channel.teardown_new_iff kind hcalls, ← hnew]
  have hrun := h.view_runAll hw ((withTeardown calls).map (c, ·))
  rw [runAll_callOne] at hrun
  constructor
  · rintro ⟨w', hw', -, htorn, -⟩
    rw [hw'] at hrun
    obtain ⟨x, hx, hview⟩ := map_eq_ok.mp hrun.symm
    refine ⟨x, hx, ?_⟩
    rwa [← hview, update_self] at htorn
  · rintro ⟨x, hx, htorn⟩
    rw [hx] at hrun
    obtain ⟨w', hw', hview⟩ := map_eq_ok.mp hrun
    refine ⟨w', hw', h.inv_runAll hw hw', ?_, ?_⟩
    · rw [hview, update_self]
      exact htorn
    · intro d hd
      rw [hview, update_of_ne hd]

theorem asked_eq (hw : Inv w) (hw' : Inv w')
    (heq : ∀ d, (view w' d).registration.watched = (view w d).registration.watched) :
    w'.asked = w.asked := by
  ext x
  simp only [h.mem_asked w' hw', h.mem_asked w hw, heq]

theorem asked_of_tornDown (hw : Inv w) (hw' : Inv w')
    (hnew : view w c = Channel.new kind) (htorn : (view w' c).TornDown)
    (hother : ∀ d, d ≠ c → view w' d = view w d) : w'.asked = w.asked := by
  refine h.asked_eq hw hw' fun d ↦ ?_
  rcases eq_or_ne d c with rfl | hd
  · rw [htorn.2.2, hnew]
    rfl
  · rw [hother d hd]

end Refines

variable {fd : ι → ℕ}

namespace PollPoller

/-- The teardown of `c` after `calls` trips no assertion. It leaves the poller without the channel
and without an entry for its descriptor, and every other channel as it was registered. -/
def Legal (fd : ι → ℕ) (w : PollWatch ι) (c : ι) (calls : List ChannelCall) : Prop :=
  ∃ w', runAll (Watch.call fd) w ((withTeardown calls).map (c, ·)) = .ok w' ∧
    (w'.channel c).addedToLoop = false ∧ w'.poller.channels (fd c) = none ∧
    (∀ pfd ∈ w'.poller.pollfds, pfd.fd ≠ fd c ∧ pfd.fd ≠ -fd c - 1) ∧
    w'.asked = w.asked ∧ ∀ d, d ≠ c → view fd w' d = view fd w d

theorem view_fresh {w : PollWatch ι} {c : ι} (hw : Inv fd w)
    (hnew : w.channel c = .new) : view fd w c = Channel.new .poll := by
  have hc : ¬Registered fd w c := by
    intro hc
    have hindex := hw.index_nonneg hc
    rw [hnew] at hindex
    exact hindex (by decide)
  rw [view_of_not_registered hc, hnew]
  rfl

theorem legal_iff (hfd : Injective fd) {w : PollWatch ι} {c : ι}
    (hw : Inv fd w) (hnew : w.channel c = .new) {calls : List ChannelCall}
    (hcalls : .remove ∉ calls) : Legal fd w c calls ↔ calls ≠ [] := by
  have hview := view_fresh hw hnew
  have hiff := (refines hfd).teardown_iff hw hview hcalls
  rw [forall_prop_of_true rfl] at hiff
  rw [← hiff]
  constructor
  · rintro ⟨w', hw', hadded, hnone, -, hasked, hother⟩
    have hinv : Inv fd w' := (refines hfd).inv_runAll hw hw'
    have hc : ¬Registered fd w' c := by
      rw [Registered, hnone]
      exact (Option.some_ne_none c).symm
    refine ⟨w', hw', hinv, ?_, hother⟩
    rw [view_of_not_registered hc]
    exact ⟨hadded, rfl, rfl⟩
  · rintro ⟨w', hw', hinv, htorn, hother⟩
    have hc : ¬Registered fd w' c := of_decide_eq_false htorn.2.1
    refine ⟨w', hw', htorn.1, hinv.channels_eq_none hfd hc, ?_, ?_, hother⟩
    · intro pfd hpfd
      obtain ⟨i, hi⟩ := List.mem_iff_getElem?.mp hpfd
      obtain ⟨d, hd, -, hfdd⟩ := hinv.owner_entry hi
      have hne : (fd d : ℤ) ≠ fd c := cast_fd_ne hfd (by
        rintro rfl
        exact hc hd)
      omega
    · exact (refines hfd).asked_of_tornDown hw hinv hview htorn hother

end PollPoller

namespace EPollPoller

/-- The teardown of `c` after `calls` trips no assertion. It leaves the poller and the kernel
without the channel, and every other channel as it was registered. -/
def Legal (fd : ι → ℕ) (w : EPollWatch ι) (c : ι) (calls : List ChannelCall) : Prop :=
  ∃ w', runAll (Watch.call fd) w ((withTeardown calls).map (c, ·)) = .ok w' ∧
    (w'.channel c).addedToLoop = false ∧ w'.poller.channels (fd c) = none ∧
    w'.poller.interest (fd c) = none ∧
    w'.asked = w.asked ∧ ∀ d, d ≠ c → view fd w' d = view fd w d

theorem view_fresh {w : EPollWatch ι} {c : ι} (hw : Inv fd w)
    (hnew : w.channel c = .new) : view fd w c = Channel.new .epoll := by
  have hindex : (w.channel c).index = kNew := by
    rw [hnew]
    rfl
  rcases view_situation hw c with ⟨-, -, -, hreg⟩ | ⟨hadded, -⟩ | ⟨hdeleted, -⟩
  · have hsplit : view fd w c =
        ⟨.epoll, (w.channel c).events, (w.channel c).addedToLoop, (view fd w c).registration⟩ := rfl
    rw [hsplit, hreg, hnew]
    rfl
  · exact absurd (hindex.symm.trans hadded) (by decide)
  · exact absurd (hindex.symm.trans hdeleted) (by decide)

theorem legal (hfd : Injective fd) {w : EPollWatch ι} {c : ι}
    (hw : Inv fd w) (hnew : w.channel c = .new) {calls : List ChannelCall}
    (hcalls : .remove ∉ calls) : Legal fd w c calls := by
  have hview := view_fresh hw hnew
  obtain ⟨w', hw', hinv, htorn, hother⟩ :=
    ((refines hfd).teardown_iff hw hview hcalls).mpr nofun
  refine ⟨w', hw', htorn.1, ?_, htorn.2.2,
    (refines hfd).asked_of_tornDown hw hinv hview htorn hother, hother⟩
  have hc : ¬Registered fd w' c := of_decide_eq_false htorn.2.1
  rcases hinv.situation c with ⟨-, howner, -⟩ | ⟨-, howner, -⟩ | ⟨-, howner, -⟩
  · exact howner
  · exact absurd howner hc
  · exact absurd howner hc

end EPollPoller

/-- **When a teardown is legal.** For channels with distinct descriptors, every state of either
poller, every new channel and every sequence of calls on it that enable or disable events:
`EPollPoller` lets the channel be torn down, and `PollPoller` does exactly if there was a call. -/
theorem teardown_legal_iff (hfd : Injective fd) (c : ι) (calls : List ChannelCall)
    (hcalls : .remove ∉ calls) :
    (∀ w : PollWatch ι, PollPoller.Inv fd w → w.channel c = .new →
      (PollPoller.Legal fd w c calls ↔ calls ≠ [])) ∧
    (∀ w : EPollWatch ι, EPollPoller.Inv fd w → w.channel c = .new →
      EPollPoller.Legal fd w c calls) :=
  ⟨fun _ hw hnew ↦ PollPoller.legal_iff hfd hw hnew hcalls,
    fun _ hw hnew ↦ EPollPoller.legal hfd hw hnew hcalls⟩

end Family

/-- A channel that was enabled once is torn down beside another one. -/
theorem teardown_legal_enabled :
    ∃ w : Watch Bool (PollPoller Bool),
      runAll (Watch.call fun b ↦ if b then 8 else 7) Watch.new [(false, .enableReading)] = .ok w ∧
        PollPoller.Legal (fun b ↦ if b then 8 else 7) w true [.enableWriting] := by
  have hfd : Injective fun b : Bool ↦ if b then 8 else 7 := by decide
  obtain ⟨w, hrun, hnew⟩ : ∃ w : Watch Bool (PollPoller Bool),
      runAll (Watch.call fun b ↦ if b then 8 else 7) Watch.new [(false, .enableReading)] = .ok w ∧
        w.channel true = .new := ⟨_, rfl, rfl⟩
  have hinv : PollPoller.Inv _ w := (PollPoller.refines hfd).inv_run hrun
  obtain ⟨hpoll, -⟩ := teardown_legal_iff hfd true [.enableWriting] (by decide)
  exact ⟨w, hrun, (hpoll w hinv hnew).mpr (by decide)⟩

/-- The channel of an `Acceptor` that never listened. -/
theorem not_legal_never_enabled :
    ¬PollPoller.Legal (fun _ : Unit ↦ 7) (Watch.new : Watch Unit (PollPoller Unit)) () [] := by
  rintro ⟨w', hw', -⟩
  cases hw'

end Fishnet
