import Fishnet.Library.Run
import Fishnet.Net.Channel

/-!
# The two pollers

`PollPoller` keeps an array of `pollfd` in step with its channels: a channel's `index_` is its place
in the array, a channel without events has its descriptor negated, and a removed channel's place is
filled by the last entry. `EPollPoller` keeps the interest list in the kernel, and `index_` says
whether the channel is in it.

Here both are modelled with all their channels. `Net.Channel` follows one channel and the entry that
its poller has for it; `PollerEntry` says that this entry is what the data structures below amount
to.

A channel is named by an element of `ι`, which stands for its address, and `fd` gives its
descriptor. Descriptors are natural numbers. The conversions between `size_t` and `int` are not
modelled: there are fewer than `2 ^ 31` descriptors.

## The kernel

`epoll_ctl` fails when a descriptor is added twice, and when one is modified or deleted that is not
there. A failed deletion is logged. The other failures are fatal: `LOG_SYSFATAL` aborts the process,
as a failed assertion does.
-/

namespace Fishnet

/-! ## The channels of a loop -/

/-- The fields of a channel that change, as far as the pollers read them. -/
structure ChannelFields where
  /-- `events_`. -/
  events : EventMask
  /-- `index_`. -/
  index : ℤ
  /-- `addedToLoop_`. -/
  addedToLoop : Bool
  deriving DecidableEq, Repr

/-- The fields as constructed. -/
def ChannelFields.new : ChannelFields := ⟨0, -1, false⟩

/-- The channels of a loop and its poller. -/
structure Watch (ι P : Type) where
  channel : ι → ChannelFields
  poller : P

namespace Watch

variable {ι P : Type} [DecidableEq ι]

/-- `channel->setIndex(idx)`. -/
def setIndex (w : Watch ι P) (c : ι) (idx : ℤ) : Watch ι P :=
  ⟨Function.update w.channel c { w.channel c with index := idx }, w.poller⟩

/-- The assignment to `events_` and `addedToLoop_` at the start of an update. -/
def setEvents (w : Watch ι P) (c : ι) (events : EventMask) : Watch ι P :=
  ⟨Function.update w.channel c { w.channel c with events := events, addedToLoop := true }, w.poller⟩

/-- The assignment to `addedToLoop_` in `Channel::remove`. -/
def setRemoved (w : Watch ι P) (c : ι) : Watch ι P :=
  ⟨Function.update w.channel c { w.channel c with addedToLoop := false }, w.poller⟩

variable {w : Watch ι P} {c d : ι} {idx : ℤ} {events : EventMask}

theorem setIndex_self :
    (w.setIndex c idx).channel c = ⟨(w.channel c).events, idx, (w.channel c).addedToLoop⟩ :=
  Function.update_self ..

theorem setIndex_of_ne (h : d ≠ c) : (w.setIndex c idx).channel d = w.channel d :=
  Function.update_of_ne h ..

theorem setEvents_self : (w.setEvents c events).channel c = ⟨events, (w.channel c).index, true⟩ :=
  Function.update_self ..

theorem setRemoved_self :
    (w.setRemoved c).channel c = ⟨(w.channel c).events, (w.channel c).index, false⟩ :=
  Function.update_self ..

theorem setRemoved_of_ne (h : d ≠ c) : (w.setRemoved c).channel d = w.channel d :=
  Function.update_of_ne h ..

end Watch

/-- The virtual functions of `Poller`, and what the kernel is asked to watch. -/
class Poller (P : Type) (ι : outParam Type) where
  /-- The poller as constructed. -/
  new : P
  updateChannel : (ι → ℕ) → Watch ι P → ι → Checked (Watch ι P)
  removeChannel : (ι → ℕ) → Watch ι P → ι → Checked (Watch ι P)
  /-- The descriptors and masks that the kernel is asked to watch. -/
  asked : P → Set (ℤ × EventMask)

/-! ## `PollPoller` -/

/-- `struct pollfd`, without `revents`. -/
structure PollFd where
  fd : ℤ
  events : BitVec 16
  deriving DecidableEq, Repr

/-- The mask of an entry, as an `int`. -/
def PollFd.mask (pfd : PollFd) : EventMask := pfd.events.signExtend 32

structure PollPoller (ι : Type) where
  /-- `channels_`. -/
  channels : ℤ → Option ι
  /-- `pollfds_`. -/
  pollfds : List PollFd

/-- `EPollPoller`, with the interest list that the kernel keeps for `epollfd_`. -/
structure EPollPoller (ι : Type) where
  /-- `channels_`. -/
  channels : ℤ → Option ι
  interest : ℤ → Option EventMask

abbrev PollWatch (ι : Type) := Watch ι (PollPoller ι)

abbrev EPollWatch (ι : Type) := Watch ι (EPollPoller ι)

section Backends

variable {ι : Type} [DecidableEq ι] (fd : ι → ℕ)

namespace PollPoller

/-- `updateChannel` for a channel that has no place in the array. -/
def addChannel (w : PollWatch ι) (c : ι) : Checked (PollWatch ι) := do
  assert (w.poller.channels (fd c) = none)
  let pollfds := w.poller.pollfds ++ [⟨fd c, (w.channel c).events.setWidth 16⟩]
  let w := w.setIndex c (pollfds.length - 1)
  return { w with poller := ⟨Function.update w.poller.channels (fd c) (some c), pollfds⟩ }

/-- `updateChannel` for a channel that has one. -/
def modifyChannel (w : PollWatch ι) (c : ι) : Checked (PollWatch ι) := do
  assert (w.poller.channels (fd c) ≠ none)
  assert (w.poller.channels (fd c) = some c)
  let idx := (w.channel c).index
  assert (0 ≤ idx ∧ idx < w.poller.pollfds.length)
  match w.poller.pollfds[idx.toNat]? with
  | none => .error .badAccess
  | some pfd => do
    assert (pfd.fd = fd c ∨ pfd.fd = -fd c - 1)
    let events := (w.channel c).events
    -- an entry without events is ignored by the kernel, because its descriptor is negative
    let pfd : PollFd := ⟨if events = 0 then -fd c - 1 else fd c, events.setWidth 16⟩
    return { w with poller := { w.poller with pollfds := w.poller.pollfds.set idx.toNat pfd } }

def updateChannel (w : PollWatch ι) (c : ι) : Checked (PollWatch ι) :=
  if (w.channel c).index < 0 then addChannel fd w c else modifyChannel fd w c

/-- The part of `removeChannel` that fills the place `idx` with the last entry and drops that one.
-/
def fillPlace (w : PollWatch ι) (idx : ℕ) : Checked (PollWatch ι) :=
  if idx = w.poller.pollfds.length - 1 then
    .ok { w with poller := { w.poller with pollfds := w.poller.pollfds.dropLast } }
  else
    match w.poller.pollfds.getLast? with
    | none => .error .badAccess
    | some last =>
      let channelAtEnd := if last.fd < 0 then -last.fd - 1 else last.fd
      match w.poller.channels channelAtEnd with
      | none => .error .badAccess
      | some d =>
        let w := w.setIndex d idx
        .ok { w with poller :=
          { w.poller with pollfds := (w.poller.pollfds.set idx last).dropLast } }

def removeChannel (w : PollWatch ι) (c : ι) : Checked (PollWatch ι) := do
  assert (w.poller.channels (fd c) ≠ none)
  assert (w.poller.channels (fd c) = some c)
  assert ((w.channel c).events = 0)
  let idx := (w.channel c).index
  assert (0 ≤ idx ∧ idx < w.poller.pollfds.length)
  match w.poller.pollfds[idx.toNat]? with
  | none => .error .badAccess
  | some pfd => do
    assert (pfd.fd = -fd c - 1 ∧ pfd.mask = (w.channel c).events)
    fillPlace { w with poller :=
      { w.poller with channels := Function.update w.poller.channels (fd c) none } } idx.toNat

instance : Poller (PollPoller ι) ι where
  new := ⟨fun _ ↦ none, []⟩
  updateChannel := updateChannel
  removeChannel := removeChannel
  asked p := {x | ∃ pfd ∈ p.pollfds, 0 ≤ pfd.fd ∧ x = (pfd.fd, pfd.mask)}

end PollPoller

/-! ## `EPollPoller` -/

/-- The operations of `epoll_ctl`. -/
inductive EpollOp where
  | EPOLL_CTL_ADD
  | EPOLL_CTL_MOD
  | EPOLL_CTL_DEL
  deriving DecidableEq, Repr

open EpollOp

/-- `epoll_ctl`, where `none` is a failure. -/
def epollCtl (interest : ℤ → Option EventMask) (operation : EpollOp) (fd : ℤ) (events : EventMask) :
    Option (ℤ → Option EventMask) :=
  match operation with
  | EPOLL_CTL_ADD =>
    if interest fd = none then some (Function.update interest fd (some events)) else none
  | EPOLL_CTL_MOD =>
    if interest fd = none then none else some (Function.update interest fd (some events))
  | EPOLL_CTL_DEL => if interest fd = none then none else some (Function.update interest fd none)

namespace EPollPoller

def kNew : ℤ := -1
def kAdded : ℤ := 1
def kDeleted : ℤ := 2

def update (operation : EpollOp) (w : EPollWatch ι) (c : ι) : Checked (EPollWatch ι) :=
  match epollCtl w.poller.interest operation (fd c) (w.channel c).events with
  | some interest => .ok { w with poller := { w.poller with interest := interest } }
  | none => if operation = EPOLL_CTL_DEL then .ok w else .error .assertion

/-- `updateChannel` for a channel that is not in the interest list. -/
def addChannel (w : EPollWatch ι) (c : ι) : Checked (EPollWatch ι) := do
  let w ←
    if (w.channel c).index = kNew then do
      assert (w.poller.channels (fd c) = none)
      pure { w with poller :=
        { w.poller with channels := Function.update w.poller.channels (fd c) (some c) } }
    else do
      assert (w.poller.channels (fd c) ≠ none)
      assert (w.poller.channels (fd c) = some c)
      pure w
  update fd EPOLL_CTL_ADD (w.setIndex c kAdded) c

/-- `updateChannel` for a channel that is. -/
def modifyChannel (w : EPollWatch ι) (c : ι) :
    Checked (EPollWatch ι) := do
  assert (w.poller.channels (fd c) ≠ none)
  assert (w.poller.channels (fd c) = some c)
  assert ((w.channel c).index = kAdded)
  if (w.channel c).events = 0 then do
    let w ← update fd EPOLL_CTL_DEL w c
    pure (w.setIndex c kDeleted)
  else update fd EPOLL_CTL_MOD w c

def updateChannel (w : EPollWatch ι) (c : ι) : Checked (EPollWatch ι) :=
  if (w.channel c).index = kNew ∨ (w.channel c).index = kDeleted then addChannel fd w c
  else modifyChannel fd w c

def removeChannel (w : EPollWatch ι) (c : ι) :
    Checked (EPollWatch ι) := do
  assert (w.poller.channels (fd c) ≠ none)
  assert (w.poller.channels (fd c) = some c)
  assert ((w.channel c).events = 0)
  let index := (w.channel c).index
  assert (index = kAdded ∨ index = kDeleted)
  let w := { w with poller :=
    { w.poller with channels := Function.update w.poller.channels (fd c) none } }
  let w ← if index = kAdded then update fd EPOLL_CTL_DEL w c else pure w
  pure (w.setIndex c kNew)

instance : Poller (EPollPoller ι) ι where
  new := ⟨fun _ ↦ none, fun _ ↦ none⟩
  updateChannel := updateChannel
  removeChannel := removeChannel
  asked p := {x | p.interest x.1 = some x.2}

end EPollPoller

/-! ## Calls -/

/-- The calls on a channel that reach its poller. -/
inductive ChannelCall where
  | enableReading
  | disableReading
  | enableWriting
  | disableWriting
  | disableAll
  | remove
  deriving DecidableEq, Repr

/-- What a call makes of `events_`. -/
def ChannelCall.mask (events : EventMask) : ChannelCall → EventMask
  | enableReading => events ||| Channel.kReadEvent
  | disableReading => events &&& ~~~Channel.kReadEvent
  | enableWriting => events ||| Channel.kWriteEvent
  | disableWriting => events &&& ~~~Channel.kWriteEvent
  | disableAll => Channel.kNoneEvent
  | remove => events

namespace Watch

variable {P : Type} [Poller P ι]

/-- A loop with its channels as constructed. -/
def new : Watch ι P := ⟨fun _ ↦ .new, Poller.new⟩

/-- A call on a channel, as `Channel` and `EventLoop` pass it on to the poller. -/
def call (w : Watch ι P) (x : ι × ChannelCall) : Checked (Watch ι P) :=
  match x.2 with
  | .remove => do
    assert ((w.channel x.1).events = Channel.kNoneEvent)
    Poller.removeChannel fd (w.setRemoved x.1) x.1
  | call => Poller.updateChannel fd (w.setEvents x.1 (call.mask (w.channel x.1).events)) x.1

/-- What the kernel is asked to watch. -/
def asked (w : Watch ι P) : Set (ℤ × EventMask) := Poller.asked w.poller

end Watch

end Backends

end Fishnet
