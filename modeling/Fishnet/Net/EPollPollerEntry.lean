import Fishnet.Net.PollerEntry

/-!
# The entries of `EPollPoller`

A channel is in one of three situations: unknown, in the interest list, or known and not in the
list. Its `index_`, `channels_` and the kernel agree on which. In no situation does `epoll_ctl`
fail.

## Main results

* `EPollPoller.refines`: the entries describe `EPollPoller`.
-/

namespace Fishnet

open Function

namespace EPollPoller

variable {ι : Type} [DecidableEq ι] (fd : ι → ℕ)

/-- `channels_` has the channel. -/
def Registered (w : EPollWatch ι) (c : ι) : Prop := w.poller.channels (fd c) = some c

instance (w : EPollWatch ι) (c : ι) : Decidable (Registered fd w c) :=
  inferInstanceAs (Decidable (_ = _))

/-- `index_`, by name. -/
def pollerIndex (index : ℤ) : PollerIndex :=
  if index = kNew then .kNew else if index = kAdded then .kAdded else .kDeleted

/-- A channel with its entry. -/
def view (w : EPollWatch ι) (c : ι) : Channel :=
  ⟨.epoll, (w.channel c).events, (w.channel c).addedToLoop,
    ⟨pollerIndex (w.channel c).index, decide (Registered fd w c), w.poller.interest (fd c)⟩⟩

/-- The three situations of a channel: what `index_`, `channels_` and the interest list say of it.
-/
def Situation (c : ι) (index : ℤ) (owner : Option ι) (interest : Option EventMask) : Prop :=
  index = kNew ∧ owner = none ∧ interest = none ∨
    index = kAdded ∧ owner = some c ∧ interest ≠ none ∨
    index = kDeleted ∧ owner = some c ∧ interest = none

structure Inv (w : EPollWatch ι) : Prop where
  situation : ∀ c, Situation c (w.channel c).index (w.poller.channels (fd c))
    (w.poller.interest (fd c))
  interest : ∀ f m, w.poller.interest f = some m → ∃ c, f = fd c
  isMask : ∀ c, IsMask (w.channel c).events

variable {fd} {w : EPollWatch ι} {c d : ι} {e : EventMask}

theorem inv_new : Inv fd (Watch.new : EPollWatch ι) where
  situation c := Or.inl ⟨rfl, rfl, rfl⟩
  interest f m h := by cases h
  isMask c := Or.inl rfl

theorem view_new (c : ι) : view fd (Watch.new : EPollWatch ι) c =
    Channel.new .epoll := rfl

/-! ### One channel changed -/

/-- The state in which one channel has other fields, another owner of its descriptor in `channels_`
and another entry in the interest list. -/
def changed (fd : ι → ℕ) (w : EPollWatch ι) (c : ι) (fields : ChannelFields)
    (owner : Option ι) (interest : Option EventMask) : EPollWatch ι where
  channel := Function.update w.channel c fields
  poller := ⟨Function.update w.poller.channels (fd c) owner,
    Function.update w.poller.interest (fd c) interest⟩

section Changed

variable {fields : ChannelFields} {owner : Option ι} {interest : Option EventMask}

theorem changed_of_ne (hfd : Injective fd) (hd : d ≠ c) :
    (changed fd w c fields owner interest).channel d = w.channel d ∧
      (changed fd w c fields owner interest).poller.channels (fd d) = w.poller.channels (fd d) ∧
      (changed fd w c fields owner interest).poller.interest (fd d) = w.poller.interest (fd d) :=
  have hne := cast_fd_ne hfd hd
  ⟨update_of_ne hd .., update_of_ne hne .., update_of_ne hne ..⟩

theorem changed_self : (changed fd w c fields owner interest).channel c = fields ∧
    (changed fd w c fields owner interest).poller.channels (fd c) = owner ∧
    (changed fd w c fields owner interest).poller.interest (fd c) = interest :=
  ⟨update_self .., update_self .., update_self ..⟩

theorem inv_changed (hw : Inv fd w) (hfd : Injective fd)
    (hsituation : Situation c fields.index owner interest) (hmask : IsMask fields.events) :
    Inv fd (changed fd w c fields owner interest) where
  situation d := by
    rcases eq_or_ne d c with rfl | hd
    · rw [changed_self.1, changed_self.2.1, changed_self.2.2]
      exact hsituation
    · rw [(changed_of_ne hfd hd).1, (changed_of_ne hfd hd).2.1, (changed_of_ne hfd hd).2.2]
      exact hw.situation d
  interest f m h := by
    rcases eq_or_ne f (fd c) with rfl | hf
    · exact ⟨c, rfl⟩
    · exact hw.interest f m ((update_of_ne hf ..).symm.trans h)
  isMask d := by
    rcases eq_or_ne d c with rfl | hd
    · rw [changed_self.1]
      exact hmask
    · rw [(changed_of_ne hfd hd).1]
      exact hw.isMask d

theorem view_changed (hfd : Injective fd) :
    view fd (changed fd w c fields owner interest) = Function.update (view fd w) c
      ⟨.epoll, fields.events, fields.addedToLoop,
        ⟨pollerIndex fields.index, decide (owner = some c), interest⟩⟩ := by
  funext d
  rcases eq_or_ne d c with rfl | hd
  · have hreg : Registered fd (changed fd w d fields owner interest) d ↔ owner = some d :=
      iff_of_eq (congrArg (· = some d) changed_self.2.1)
    rw [update_self, view, changed_self.1, changed_self.2.2, decide_eq_decide.mpr hreg]
  · have hreg : Registered fd (changed fd w c fields owner interest) d ↔ Registered fd w d :=
      iff_of_eq (congrArg (· = some d) (changed_of_ne hfd hd).2.1)
    rw [update_of_ne hd, view, view, (changed_of_ne hfd hd).1, (changed_of_ne hfd hd).2.2,
      decide_eq_decide.mpr hreg]

theorem view_changed_some (hfd : Injective fd) :
    view fd (changed fd w c fields (some c) interest) = Function.update (view fd w) c
      ⟨.epoll, fields.events, fields.addedToLoop, ⟨pollerIndex fields.index, true, interest⟩⟩ := by
  rw [view_changed hfd, decide_eq_true rfl]

end Changed

/-! ### Calls -/

theorem view_situation (hw : Inv fd w) (c : ι) :
    ((w.channel c).index = kNew ∧ w.poller.channels (fd c) = none ∧
        w.poller.interest (fd c) = none ∧ (view fd w c).registration = ⟨.kNew, false, none⟩) ∨
      ((w.channel c).index = kAdded ∧ w.poller.channels (fd c) = some c ∧
        w.poller.interest (fd c) ≠ none ∧
        (view fd w c).registration = ⟨.kAdded, true, w.poller.interest (fd c)⟩) ∨
      ((w.channel c).index = kDeleted ∧ w.poller.channels (fd c) = some c ∧
        w.poller.interest (fd c) = none ∧
        (view fd w c).registration = ⟨.kDeleted, true, none⟩) := by
  rcases hw.situation c with ⟨hindex, howner, hinterest⟩ | ⟨hindex, howner, hinterest⟩ |
    ⟨hindex, howner, hinterest⟩
  · refine Or.inl ⟨hindex, howner, hinterest, ?_⟩
    have hreg : ¬Registered fd w c := by
      rw [Registered, howner]
      exact (Option.some_ne_none c).symm
    rw [view, hindex, hinterest, decide_eq_false hreg]
    rfl
  · refine Or.inr (Or.inl ⟨hindex, howner, hinterest, ?_⟩)
    have hreg : Registered fd w c := howner
    rw [view, hindex, decide_eq_true hreg]
    rfl
  · refine Or.inr (Or.inr ⟨hindex, howner, hinterest, ?_⟩)
    have hreg : Registered fd w c := howner
    rw [view, hindex, hinterest, decide_eq_true hreg]
    rfl

omit [DecidableEq ι] in
theorem update_channels_eq_self (howner : w.poller.channels (fd c) = some c) :
    Function.update w.poller.channels (fd c) (some c) = w.poller.channels := by
  rw [← howner, update_eq_self]

/-- A channel that is new to the poller, or was set aside by it, is added. -/
theorem updateChannel_of_not_added
    (h : (w.channel c).index = kNew ∧ w.poller.channels (fd c) = none ∨
      (w.channel c).index = kDeleted ∧ w.poller.channels (fd c) = some c)
    (hinterest : w.poller.interest (fd c) = none) :
    updateChannel fd (w.setEvents c e) c =
      .ok (changed fd w c ⟨e, kAdded, true⟩ (some c) (some e)) := by
  rcases h with ⟨hindex, howner⟩ | ⟨hindex, howner⟩
  · simp [updateChannel, addChannel, Watch.setEvents, Watch.setIndex, hindex, howner, hinterest,
      assert, ok_bind, update, epollCtl, changed]
  · simp [updateChannel, addChannel, Watch.setEvents, Watch.setIndex, hindex, howner, hinterest,
      assert, ok_bind, update, epollCtl, changed, kDeleted, kNew, update_channels_eq_self howner]

theorem updateChannel_of_added (hindex : (w.channel c).index = kAdded)
    (howner : w.poller.channels (fd c) = some c) (hinterest : w.poller.interest (fd c) ≠ none) :
    updateChannel fd (w.setEvents c e) c =
      .ok (if e = 0 then changed fd w c ⟨e, kDeleted, true⟩ (some c) none
        else changed fd w c ⟨e, kAdded, true⟩ (some c) (some e)) := by
  by_cases he : e = 0
  · simp [updateChannel, modifyChannel, Watch.setEvents, Watch.setIndex, hindex, howner, hinterest,
      assert, ok_bind, update, epollCtl, changed, kDeleted, kNew, kAdded, he,
      update_channels_eq_self howner]
  · have he' : ¬e = 0#32 := he
    simp [updateChannel, modifyChannel, Watch.setEvents, hindex, howner, hinterest, assert,
      ok_bind, update, epollCtl, changed, kDeleted, kNew, kAdded, he',
      update_channels_eq_self howner]

theorem removeChannel_of_tracked (hevents : (w.channel c).events = 0)
    (howner : w.poller.channels (fd c) = some c)
    (hindex : (w.channel c).index = kAdded ∧ w.poller.interest (fd c) ≠ none ∨
      (w.channel c).index = kDeleted ∧ w.poller.interest (fd c) = none) :
    removeChannel fd (w.setRemoved c) c = .ok (changed fd w c ⟨0, kNew, false⟩ none none) := by
  rcases hindex with ⟨hindex, hinterest⟩ | ⟨hindex, hinterest⟩
  · simp [removeChannel, Watch.setRemoved, Watch.setIndex, hevents, hindex, howner, hinterest,
      assert, ok_bind, update, epollCtl, changed]
  · have hsame : Function.update w.poller.interest (fd c) none = w.poller.interest := by
      rw [← hinterest, update_eq_self]
    simp [removeChannel, Watch.setRemoved, Watch.setIndex, hevents, hindex, howner,
      assert, ok_bind, changed, kDeleted, kAdded, hsame]

theorem view_updateChannel (hw : Inv fd w) (hfd : Injective fd) (he : IsMask e) :
    (updateChannel fd (w.setEvents c e) c).map (view fd) =
        ((view fd w c).setEvents e).map (Function.update (view fd w) c) ∧
      ∀ w', updateChannel fd (w.setEvents c e) c = .ok w' → Inv fd w' := by
  have hadded : Situation c kAdded (some c) (some e) :=
    Or.inr (Or.inl ⟨rfl, rfl, Option.some_ne_none e⟩)
  have hdeleted : Situation c kDeleted (some c) none := Or.inr (Or.inr ⟨rfl, rfl, rfl⟩)
  rw [Channel.setEvents]
  rcases view_situation hw c with ⟨hindex, howner, hinterest, hreg⟩ |
    ⟨hindex, howner, hinterest, hreg⟩ | ⟨hindex, howner, hinterest, hreg⟩
  · rw [updateChannel_of_not_added (Or.inl ⟨hindex, howner⟩) hinterest, hreg]
    constructor
    · exact congrArg Except.ok (view_changed_some hfd)
    · rintro w' ⟨⟩
      exact inv_changed hw hfd hadded he
  · rw [updateChannel_of_added hindex howner hinterest, hreg]
    by_cases hzero : e = 0
    · rw [if_pos hzero, hzero]
      constructor
      · exact congrArg Except.ok (view_changed_some hfd)
      · rintro w' ⟨⟩
        exact inv_changed hw hfd hdeleted (Or.inl rfl)
    · have hentry : PollerKind.updateChannel e ⟨.kAdded, true, w.poller.interest (fd c)⟩ .epoll =
          .ok ⟨.kAdded, true, some e⟩ := congrArg Except.ok (if_neg hzero)
      rw [if_neg hzero]
      constructor
      · change _ = Except.map _ (PollerKind.updateChannel e _ .epoll >>= _)
        rw [hentry]
        exact congrArg Except.ok (view_changed_some hfd)
      · rintro w' ⟨⟩
        exact inv_changed hw hfd hadded he
  · rw [updateChannel_of_not_added (Or.inr ⟨hindex, howner⟩) hinterest, hreg]
    constructor
    · exact congrArg Except.ok (view_changed_some hfd)
    · rintro w' ⟨⟩
      exact inv_changed hw hfd hadded he

theorem view_removeChannel (hw : Inv fd w) (hfd : Injective fd)
    (hevents : (w.channel c).events = 0) :
    (removeChannel fd (w.setRemoved c) c).map (view fd) =
        (view fd w c).remove.map (Function.update (view fd w) c) ∧
      ∀ w', removeChannel fd (w.setRemoved c) c = .ok w' → Inv fd w' := by
  have hnew : Situation c kNew none none := Or.inl ⟨rfl, rfl, rfl⟩
  have hview : view fd (changed fd w c ⟨0, kNew, false⟩ none none) = Function.update (view fd w) c
      ⟨.epoll, 0, false, ⟨.kNew, false, none⟩⟩ := by
    rw [view_changed hfd, decide_eq_false (Option.some_ne_none c).symm]
    rfl
  have hevents' : (view fd w c).events = 0 := hevents
  have hnone : (view fd w c).isNoneEvent = true := (Channel.isNoneEvent_iff _).mpr hevents
  rw [Channel.remove, assert_bind_of hnone, hevents']
  rcases view_situation hw c with ⟨-, howner, -, hreg⟩ | ⟨hindex, howner, hinterest, hreg⟩ |
    ⟨hindex, howner, hinterest, hreg⟩
  · have howner' : ¬(w.setRemoved c).poller.channels (fd c) ≠ none := not_not.mpr howner
    rw [removeChannel, assert_bind_of_not howner', hreg]
    exact ⟨rfl, fun w' h ↦ by cases h⟩
  · rw [removeChannel_of_tracked hevents howner (Or.inl ⟨hindex, hinterest⟩), hreg]
    constructor
    · exact congrArg Except.ok hview
    · rintro w' ⟨⟩
      exact inv_changed hw hfd hnew (Or.inl rfl)
  · rw [removeChannel_of_tracked hevents howner (Or.inr ⟨hindex, hinterest⟩), hreg]
    constructor
    · exact congrArg Except.ok hview
    · rintro w' ⟨⟩
      exact inv_changed hw hfd hnew (Or.inl rfl)

theorem mem_asked_iff (hw : Inv fd w) (x : ℤ × EventMask) :
    x ∈ w.asked ↔ ∃ c, x.1 = fd c ∧ (view fd w c).registration.watched = some x.2 := by
  constructor
  · intro hx
    obtain ⟨c, hc⟩ := hw.interest x.1 x.2 hx
    refine ⟨c, hc, ?_⟩
    change w.poller.interest (fd c) = some x.2
    rw [← hc]
    exact hx
  · rintro ⟨c, hc, hx⟩
    change w.poller.interest x.1 = some x.2
    rw [hc]
    exact hx

theorem refines (hfd : Injective fd) : Refines fd .epoll (view fd) (Inv fd) where
  inv_new := inv_new
  view_new := funext view_new
  events_view _ _ := rfl
  isMask _ c hw := hw.isMask c
  updateChannel _ _ _ hw he := view_updateChannel hw hfd he
  removeChannel _ _ hw hevents := view_removeChannel hw hfd hevents
  mem_asked _ hw := mem_asked_iff hw

end EPollPoller

end Fishnet
