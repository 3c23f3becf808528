import Fishnet.Library.Checked

/-!
# Channels

A `Channel` holds the events one file descriptor is interested in and passes that mask on to the
poller of its loop. Masks are the 32-bit words of `<poll.h>`.

## What the poller holds

Of the poller only the entry of this one channel matters here: its `index_`, and what the kernel is
asked to watch for the descriptor, `none` when it is asked nothing. Both back ends are modelled.
They differ on a channel that is updated with an empty mask a second time: `epoll` adds the
descriptor again, with an empty mask, for which the kernel still reports errors and hang-ups; `poll`
goes on ignoring it.

## Dispatch

`handleEventWithGuard` fires up to four callbacks in a fixed order on one value of `revents_`. It is
generic in the state the callbacks work on.
-/

namespace Fishnet

/-- An event mask, as in `<poll.h>`. -/
abbrev EventMask := BitVec 32

namespace EventMask

def POLLIN : EventMask := 0x0001
def POLLPRI : EventMask := 0x0002
def POLLOUT : EventMask := 0x0004
def POLLERR : EventMask := 0x0008
def POLLHUP : EventMask := 0x0010
def POLLNVAL : EventMask := 0x0020
def POLLRDHUP : EventMask := 0x2000

/-- `m & flags`, as a condition. -/
def has (m flags : EventMask) : Bool := (m &&& flags) != 0

@[simp] theorem zero_has (flags : EventMask) : has 0 flags = false := by
  simp [has]

/-- Setting flags that do not overlap the ones tested changes nothing. -/
theorem or_has_of_disjoint {a flags : EventMask} (h : a &&& flags = 0) (m : EventMask) :
    has (m ||| a) flags = has m flags := by
  rw [has, has, BitVec.and_or_distrib_right, h]
  exact congrArg (· != 0) BitVec.or_zero

theorem and_not_has_of_disjoint {a flags : EventMask} (h : ~~~a &&& flags = flags)
    (m : EventMask) : has (m &&& ~~~a) flags = has m flags := by
  rw [has, has, BitVec.and_assoc, h]

theorem or_has_self {a : EventMask} (h : a ≠ 0) (m : EventMask) : has (m ||| a) a = true := by
  rw [has, BitVec.and_or_distrib_right, BitVec.and_self, bne_iff_ne]
  intro hz
  exact h (BitVec.or_eq_zero_iff.mp hz).2

theorem and_not_has_self (m a : EventMask) : has (m &&& ~~~a) a = false := by
  rw [has, BitVec.and_assoc, BitVec.not_and_self]
  simp

end EventMask

open EventMask

/-! ## The poller's entry for a channel -/

/-- The two back ends of `Poller::newDefaultPoller`. -/
inductive PollerKind where
  | poll
  | epoll
  deriving DecidableEq, Repr

/-- `index_` of a channel; for `PollPoller`, `kAdded` stands for every non-negative index. -/
inductive PollerIndex where
  | kNew
  | kAdded
  | kDeleted
  deriving DecidableEq, Repr

/-- What the poller knows of one channel. -/
structure Registration where
  /-- `index_`. -/
  index : PollerIndex
  /-- `channels_` has the channel. -/
  inChannels : Bool
  /-- The mask the kernel is asked to watch; `none` for no descriptor or an ignored one. -/
  watched : Option EventMask
  deriving DecidableEq, Repr

namespace PollerKind

/-- `updateChannel` of either back end, for a channel whose mask is `events`. -/
def updateChannel (events : EventMask) (r : Registration) : PollerKind → Checked Registration
  | epoll =>
    match r.index with
    | .kNew => do
      assert (r.inChannels = false)
      pure ⟨.kAdded, true, some events⟩
    | .kDeleted => do
      assert (r.inChannels = true)
      pure ⟨.kAdded, true, some events⟩
    | .kAdded => do
      assert (r.inChannels = true)
      pure (if events = 0 then ⟨.kDeleted, true, none⟩ else ⟨.kAdded, true, some events⟩)
  | poll =>
    if r.index = .kNew then do
      assert (r.inChannels = false)
      pure ⟨.kAdded, true, some events⟩
    else do
      assert (r.inChannels = true)
      pure ⟨.kAdded, true, if events = 0 then none else some events⟩

/-- An entry whose index agrees with `channels_` can be updated. Updating a known entry of
`PollPoller` to an empty mask makes it an ignored one. -/
theorem updateChannel_spec {r : Registration} (h : r.inChannels = (r.index != .kNew))
    (events : EventMask) (kind : PollerKind) :
    ∃ r', kind.updateChannel events r = .ok r' ∧ r'.inChannels = true ∧ r'.index ≠ .kNew ∧
      (r.index ≠ .kNew → events = 0 → kind = poll → r'.watched = none) := by
  obtain ⟨index, _, watched⟩ := r
  obtain rfl : _ = (index != .kNew) := h
  have hadded : PollerIndex.kAdded ≠ .kNew := by decide
  cases kind with
  | poll =>
    cases index with
    | kNew => exact ⟨_, rfl, rfl, hadded, fun h ↦ absurd rfl h⟩
    | kAdded => exact ⟨_, rfl, rfl, hadded, fun _ he _ ↦ if_pos he⟩
    | kDeleted => exact ⟨_, rfl, rfl, hadded, fun _ he _ ↦ if_pos he⟩
  | epoll =>
    cases index with
    | kNew => exact ⟨_, rfl, rfl, hadded, fun h ↦ absurd rfl h⟩
    | kDeleted => exact ⟨_, rfl, rfl, hadded, fun _ _ h ↦ by cases h⟩
    | kAdded =>
      refine ⟨_, rfl, ?_, ?_, fun _ _ h ↦ by cases h⟩
      · split <;> rfl
      · split <;> simp

/-- `removeChannel` of either back end. `PollPoller` asks for an ignored entry, and leaves `index_`
as it was. -/
def removeChannel (events : EventMask) (r : Registration) : PollerKind → Checked Registration
  | epoll => do
    assert (r.inChannels = true)
    assert (events = 0)
    assert (r.index ≠ .kNew)
    pure ⟨.kNew, false, none⟩
  | poll => do
    assert (r.inChannels = true)
    assert (events = 0)
    assert (r.index ≠ .kNew)
    assert (r.watched = none)
    pure ⟨r.index, false, none⟩

end PollerKind

/-! ## The channel -/

/-- `net::Channel`. The descriptor, the tie and the fields used for logging are left out. -/
structure Channel where
  /-- The back end of the poller of `loop_`. -/
  poller : PollerKind
  /-- `events_`. -/
  events : EventMask
  /-- `addedToLoop_`. -/
  addedToLoop : Bool
  /-- The poller's entry. -/
  registration : Registration
  deriving DecidableEq, Repr

namespace Channel

def kNoneEvent : EventMask := 0
def kReadEvent : EventMask := POLLIN ||| POLLPRI
def kWriteEvent : EventMask := POLLOUT

/-- A channel as constructed. -/
def new (poller : PollerKind) : Channel := ⟨poller, kNoneEvent, false, ⟨.kNew, false, none⟩⟩

variable (c : Channel)

def isNoneEvent : Bool := c.events == kNoneEvent

def isWriting : Bool := c.events.has kWriteEvent

def isReading : Bool := c.events.has kReadEvent

/-- An assignment to `events_` followed by `update()`. -/
def setEvents (events : EventMask) : Checked Channel := do
  let registration ← c.poller.updateChannel events c.registration
  pure ⟨c.poller, events, true, registration⟩

def enableReading : Checked Channel := c.setEvents (c.events ||| kReadEvent)

def disableReading : Checked Channel := c.setEvents (c.events &&& ~~~kReadEvent)

def enableWriting : Checked Channel := c.setEvents (c.events ||| kWriteEvent)

def disableWriting : Checked Channel := c.setEvents (c.events &&& ~~~kWriteEvent)

def disableAll : Checked Channel := c.setEvents kNoneEvent

def remove : Checked Channel := do
  assert (c.isNoneEvent = true)
  let registration ← c.poller.removeChannel c.events c.registration
  pure ⟨c.poller, c.events, false, registration⟩

theorem isNoneEvent_iff : c.isNoneEvent = true ↔ c.events = 0 := by
  rw [isNoneEvent, kNoneEvent, beq_iff_eq]

/-! ### Registration -/

/-- `channels_` has the channel exactly when `index_` says so. `PollPoller::removeChannel` breaks
this: it takes the channel out and leaves `index_`. -/
def Consistent : Prop := c.registration.inChannels = (c.registration.index != .kNew)

/-- The channel is known to the poller. -/
def Tracked : Prop := c.registration.inChannels = true ∧ c.registration.index ≠ .kNew

/-- `remove()` will succeed. -/
def Removable : Prop :=
  c.events = 0 ∧ c.Tracked ∧ (c.poller = .poll → c.registration.watched = none)

variable {c}

theorem consistent_new (poller : PollerKind) : (new poller).Consistent := rfl

theorem Tracked.consistent (h : c.Tracked) : c.Consistent := by
  rw [Consistent, h.1]
  exact (bne_iff_ne.mpr h.2).symm

/-- **Updates.** A consistent channel can be updated to any mask, and is tracked from then on. -/
theorem setEvents_spec (h : c.Consistent) (e : EventMask) :
    ∃ c', c.setEvents e = .ok c' ∧ c'.events = e ∧ c'.Tracked ∧
      (c.Tracked → e = 0 → c'.Removable) := by
  obtain ⟨r, hr, hin, hindex, hwatched⟩ := PollerKind.updateChannel_spec h e c.poller
  refine ⟨_, bind_of_ok hr _, rfl, ⟨hin, hindex⟩, fun ht he ↦ ⟨he, ⟨hin, hindex⟩, ?_⟩⟩
  exact hwatched ht.2 he

/-- The channel is registered with its read events. -/
def Listening (c : Channel) : Prop :=
  c.registration.inChannels = true ∧ c.registration.index = .kAdded ∧ c.isReading = true

theorem Listening.tracked (h : c.Listening) : c.Tracked :=
  ⟨h.1, by rw [h.2.1]; decide⟩

theorem isReading_ne_zero {e : EventMask} (h : e.has kReadEvent = true) : e ≠ 0 := by
  rintro rfl
  cases h

theorem updateChannel_added {r : Registration} (hin : r.inChannels = true)
    (hindex : r.index = .kAdded) (events : EventMask) (kind : PollerKind) :
    kind.updateChannel events r = .ok (if events = 0 then
      ⟨if kind = .poll then .kAdded else .kDeleted, true, none⟩
        else ⟨.kAdded, true, some events⟩) := by
  obtain ⟨_, _, watched⟩ := r
  obtain rfl : _ = true := hin
  obtain rfl : _ = PollerIndex.kAdded := hindex
  cases kind with
  | epoll => rfl
  | poll =>
    change Except.ok _ = _
    split <;> rfl

/-- A channel that is given read events listens. -/
theorem Consistent.listening (h : c.Consistent) {e : EventMask} (he : e.has kReadEvent = true)
    {c' : Channel} (hc' : c.setEvents e = .ok c') :
    c'.Listening ∧ c'.registration.watched = some e := by
  obtain ⟨poller, events, added, index, _, watched⟩ := c
  obtain rfl : _ = (index != .kNew) := h
  have hne : e ≠ 0 := isReading_ne_zero he
  have hr : poller.updateChannel e ⟨index, index != .kNew, watched⟩
      = .ok ⟨.kAdded, true, some e⟩ := by
    cases poller with
    | poll =>
      cases index with
      | kNew => rfl
      | _ => exact congrArg (fun w ↦ Except.ok (⟨.kAdded, true, w⟩ : Registration)) (if_neg hne)
    | epoll =>
      cases index with
      | kAdded => exact congrArg Except.ok (if_neg hne)
      | _ => rfl
  rw [setEvents, bind_of_ok hr] at hc'
  cases hc'
  exact ⟨⟨rfl, rfl, he⟩, rfl⟩

/-- A listening channel that gives up all events is not watched any more. -/
theorem Listening.disableAll (h : c.Listening) :
    ∃ c', c.disableAll = .ok c' ∧ c'.Removable ∧ c'.registration.watched = none := by
  have hr := updateChannel_added h.1 h.2.1 kNoneEvent c.poller
  rw [if_pos (show kNoneEvent = 0 from rfl)] at hr
  refine ⟨_, bind_of_ok hr _, ⟨rfl, ⟨rfl, ?_⟩, fun _ ↦ rfl⟩, rfl⟩
  dsimp only
  split <;> decide

/-- **Removal.** A removable channel is removed, and the poller then watches nothing for it. -/
theorem remove_spec (h : c.Removable) :
    ∃ c', c.remove = .ok c' ∧ c'.events = 0 ∧ c'.registration.inChannels = false ∧
      c'.registration.watched = none := by
  obtain ⟨hevents, ⟨hin, hindex⟩, hwatched⟩ := h
  rw [remove, assert_bind_of ((isNoneEvent_iff c).mpr hevents)]
  cases hp : c.poller with
  | epoll =>
    simp only [PollerKind.removeChannel, assert_bind_of hin, assert_bind_of hevents,
      assert_bind_of hindex]
    exact ⟨_, rfl, hevents, rfl, rfl⟩
  | poll =>
    simp only [PollerKind.removeChannel, assert_bind_of hin, assert_bind_of hevents,
      assert_bind_of hindex, assert_bind_of (hwatched hp)]
    exact ⟨_, rfl, hevents, rfl, rfl⟩

/-! ### Dispatch -/

/-- `handleEventWithGuard`: close, error, read, write, all on the same `revents`. -/
def handleEventWithGuard {σ : Type} (revents : EventMask)
    (closeCallback errorCallback readCallback writeCallback : σ → Checked σ) (s : σ) :
    Checked σ := do
  let s ← if revents.has POLLHUP && !revents.has POLLIN then closeCallback s else pure s
  let s ← if revents.has (POLLERR ||| POLLNVAL) then errorCallback s else pure s
  let s ← if revents.has (POLLIN ||| POLLPRI ||| POLLRDHUP) then readCallback s else pure s
  if revents.has POLLOUT then writeCallback s else pure s

end Channel

end Fishnet
