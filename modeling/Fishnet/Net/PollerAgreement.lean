import Fishnet.Net.EPollPollerEntry
import Fishnet.Net.PollPollerEntry

/-!
# Where the two pollers agree

`Poller::newDefaultPoller` chooses between `PollPoller` and `EPollPoller` by an
environment variable. The two ask the kernel the same as long as a channel is used in a simple way:
it is updated, its events are all disabled once, and then it is enabled again or removed. `Wish`
follows a channel through such a use, without reference to either poller.

The pollers part in three cases (`Wish.Parts`):

* a channel that has no events, and whose entry is ignored, is updated again without events.
  `EPollPoller` adds it again, with an empty mask; `PollPoller` goes on ignoring it;
* a channel is removed whose first update was without events and has not been repeated. `PollPoller`
  asserts that the entry is an ignored one;
* a channel is used again after it has been removed. `PollPoller` does not reset `index_`, and
  asserts that `channels_` has the channel.

## Main results

* `pollers_agree_iff`: the pollers agree after every step exactly if none of the three cases occurs.
* `channels_kept_apart`
-/

namespace Fishnet

open Function List

/-! ## The use of a channel -/

/-- How a channel is known to its poller. -/
inductive Interest where
  | unknown
  | watched
  | ignored
  | removed
  deriving DecidableEq, Repr

/-- A channel, as its user sees it. -/
structure Wish where
  events : EventMask
  interest : Interest
  deriving DecidableEq, Repr

namespace Wish

/-- A channel as constructed. -/
def new : Wish := ⟨0, .unknown⟩

variable (x : Wish)

/-- The effect of a call, where the pollers agree on one. -/
def next : ChannelCall → Wish
  | .remove => ⟨x.events, .removed⟩
  | call =>
    ⟨call.mask x.events,
      if x.interest ≠ .unknown ∧ call.mask x.events = 0 then .ignored else .watched⟩

/-- `remove` may be called on a registered channel without events. -/
def Legal (call : ChannelCall) : Prop :=
  call = .remove → (x.interest = .watched ∨ x.interest = .ignored) ∧ x.events = 0

/-- The pollers part. -/
def Parts (call : ChannelCall) : Prop :=
  x.interest = .watched ∧ call = .remove ∨
    x.interest = .ignored ∧ call ≠ .remove ∧ call.mask x.events = 0 ∨
    x.interest = .removed ∧ call ≠ .remove

instance (call : ChannelCall) : Decidable (x.Legal call) :=
  inferInstanceAs (Decidable (_ → _))

instance (call : ChannelCall) : Decidable (x.Parts call) :=
  inferInstanceAs (Decidable (_ ∨ _))

/-! ## Its entries -/

/-- The entry of `PollPoller`. -/
def pollEntry : Registration :=
  match x.interest with
  | .unknown => ⟨.kNew, false, none⟩
  | .watched => ⟨.kAdded, true, some x.events⟩
  | .ignored => ⟨.kAdded, true, none⟩
  | .removed => ⟨.kAdded, false, none⟩

/-- The entry of `EPollPoller`. -/
def epollEntry : Registration :=
  match x.interest with
  | .unknown => ⟨.kNew, false, none⟩
  | .watched => ⟨.kAdded, true, some x.events⟩
  | .ignored => ⟨.kDeleted, true, none⟩
  | .removed => ⟨.kNew, false, none⟩

/-- `addedToLoop_`. -/
def isAdded : Bool := x.interest == .watched || x.interest == .ignored

def pollChannel : Channel := ⟨.poll, x.events, x.isAdded, x.pollEntry⟩

def epollChannel : Channel := ⟨.epoll, x.events, x.isAdded, x.epollEntry⟩

theorem watched_eq : x.pollChannel.registration.watched = x.epollChannel.registration.watched := by
  obtain ⟨events, interest⟩ := x
  cases interest <;> rfl

theorem next_of_ne {call : ChannelCall} (h : call ≠ .remove) (x : Wish) :
    x.next call = ⟨call.mask x.events,
      if x.interest ≠ .unknown ∧ call.mask x.events = 0 then .ignored else .watched⟩ := by
  cases call with
  | remove => exact absurd rfl h
  | _ => rfl

/-- An update of a channel that is not removed, and not from ignored to ignored. -/
theorem setEvents_next {x : Wish} {m : EventMask} (hremoved : x.interest ≠ .removed)
    (hignored : x.interest = .ignored → m ≠ 0) :
    x.pollChannel.setEvents m = .ok (pollChannel ⟨m,
        if x.interest ≠ .unknown ∧ m = 0 then .ignored else .watched⟩) ∧
      x.epollChannel.setEvents m = .ok (epollChannel ⟨m,
        if x.interest ≠ .unknown ∧ m = 0 then .ignored else .watched⟩) := by
  obtain ⟨events, interest⟩ := x
  cases interest with
  | unknown => exact ⟨rfl, rfl⟩
  | watched =>
    by_cases hm : m = 0
    · subst hm
      exact ⟨rfl, rfl⟩
    · rw [if_neg fun h ↦ hm h.2]
      constructor
      · exact congrArg (fun w ↦ Except.ok (⟨.poll, m, true, ⟨.kAdded, true, w⟩⟩ : Channel))
          (if_neg hm)
      · exact congrArg (fun r ↦ Except.ok (⟨.epoll, m, true, r⟩ : Channel)) (if_neg hm)
  | ignored =>
    have hm : m ≠ 0 := hignored rfl
    rw [if_neg fun h ↦ hm h.2]
    exact ⟨congrArg (fun w ↦ Except.ok (⟨.poll, m, true, ⟨.kAdded, true, w⟩⟩ : Channel))
      (if_neg hm), rfl⟩
  | removed => exact absurd rfl hremoved

/-- Where the pollers do not part, both follow the use of the channel. -/
theorem perform_next {x : Wish} {call : ChannelCall} (hlegal : x.Legal call) (h : ¬x.Parts call) :
    x.pollChannel.perform call = .ok (x.next call).pollChannel ∧
      x.epollChannel.perform call = .ok (x.next call).epollChannel := by
  simp only [Parts, not_or, not_and] at h
  obtain ⟨hwatched, hignored, hremoved⟩ := h
  by_cases hcall : call = .remove
  · obtain ⟨hinterest, hevents⟩ := hlegal hcall
    obtain ⟨events, interest⟩ := x
    obtain rfl : interest = .ignored := hinterest.resolve_left fun h ↦ hwatched h hcall
    obtain rfl : events = 0 := hevents
    subst hcall
    exact ⟨rfl, rfl⟩
  · rw [Channel.perform_of_ne_remove hcall, Channel.perform_of_ne_remove hcall, next_of_ne hcall]
    exact setEvents_next (fun h ↦ hremoved h hcall) fun h ↦ hignored h hcall

/-- Where they part, one of them fails or they ask different things. -/
theorem watched_ne {x : Wish} {call : ChannelCall} (hlegal : x.Legal call) (h : x.Parts call)
    {p e : Channel} (hp : x.pollChannel.perform call = .ok p)
    (he : x.epollChannel.perform call = .ok e) :
    p.registration.watched ≠ e.registration.watched := by
  obtain ⟨events, interest⟩ := x
  rcases h with ⟨hinterest, hcall⟩ | ⟨hinterest, hcall, hmask⟩ | ⟨hinterest, hcall⟩
  · obtain rfl : interest = .watched := hinterest
    obtain rfl : events = 0 := (hlegal hcall).2
    subst hcall
    cases hp
  · obtain rfl : interest = .ignored := hinterest
    rw [Channel.perform_of_ne_remove hcall] at hp he
    change Channel.setEvents _ (call.mask events) = _ at hp he
    rw [hmask] at hp he
    cases hp
    cases he
    exact (Option.some_ne_none _).symm
  · obtain rfl : interest = .removed := hinterest
    rw [Channel.perform_of_ne_remove hcall] at hp
    cases hp

end Wish

/-! ## Many channels -/

section Family

variable {ι : Type} [DecidableEq ι]

/-- **Channels do not get into each other's way.** -/
theorem channels_kept_apart {fd : ι → ℕ} (hfd : Injective fd) :
    KeepsApart (PollPoller ι) fd .poll ∧ KeepsApart (EPollPoller ι) fd .epoll :=
  ⟨(PollPoller.refines hfd).keepsApart hfd, (EPollPoller.refines hfd).keepsApart hfd⟩

theorem channels_kept_apart_two :
    KeepsApart (PollPoller Bool) Bool.toNat .poll ∧
      KeepsApart (EPollPoller Bool) Bool.toNat .epoll :=
  channels_kept_apart (by decide)

variable (f : ι → Wish)

/-- A call on one channel, as the users of the channels see it. -/
def wishStep (x : ι × ChannelCall) : Checked (ι → Wish) :=
  .ok (update f x.1 ((f x.1).next x.2))

/-- `remove` is only called on registered channels without events. -/
def LegalCall (x : ι × ChannelCall) : Prop := (f x.1).Legal x.2

/-- None of the three cases in which the pollers part. -/
def HarmlessCall (x : ι × ChannelCall) : Prop := ¬(f x.1).Parts x.2

instance (x : ι × ChannelCall) : Decidable (LegalCall f x) :=
  inferInstanceAs (Decidable (Wish.Legal _ _))

instance (x : ι × ChannelCall) : Decidable (HarmlessCall f x) :=
  inferInstanceAs (Decidable ¬_)

/-- Both pollers serve the calls and ask the kernel to watch the same descriptors with the same
masks. -/
def Agree (fd : ι → ℕ) (xs : List (ι × ChannelCall)) : Prop :=
  ∃ (p : PollWatch ι) (e : EPollWatch ι),
    runAll (Watch.call fd) Watch.new xs = .ok p ∧ runAll (Watch.call fd) Watch.new xs = .ok e ∧
      p.asked = e.asked

/-- The same for the entries, from the entries that belong to `f`. -/
def EntriesAgree (xs : List (ι × ChannelCall)) : Prop :=
  ∃ p e : ι → Channel, runAll callOne (fun c ↦ (f c).pollChannel) xs = .ok p ∧
    runAll callOne (fun c ↦ (f c).epollChannel) xs = .ok e ∧
    ∀ c, (p c).registration.watched = (e c).registration.watched

theorem agree_iff {fd : ι → ℕ} (hfd : Injective fd) (xs : List (ι × ChannelCall)) :
    Agree fd xs ↔ EntriesAgree (fun _ ↦ Wish.new) xs := by
  have hpoll := PollPoller.refines hfd
  have hepoll := EPollPoller.refines hfd
  have hpollRun := hpoll.view_run xs
  have hepollRun := hepoll.view_run xs
  constructor
  · rintro ⟨p, e, hp, he, hasked⟩
    rw [hp] at hpollRun
    rw [he] at hepollRun
    exact ⟨_, _, hpollRun.symm, hepollRun.symm,
      (hpoll.asked_eq_iff hepoll hfd (hpoll.inv_run hp) (hepoll.inv_run he)).mp hasked⟩
  · rintro ⟨f, g, hf, hg, hwatched⟩
    obtain ⟨p, hp, rfl⟩ := map_eq_ok.mp (hpollRun.trans hf)
    obtain ⟨e, he, rfl⟩ := map_eq_ok.mp (hepollRun.trans hg)
    exact ⟨p, e, hp, he,
      (hpoll.asked_eq_iff hepoll hfd (hpoll.inv_run hp) (hepoll.inv_run he)).mpr hwatched⟩

/-- A legal and harmless call has the same effect with both pollers. -/
theorem callOne_next {f : ι → Wish} {x : ι × ChannelCall} (hlegal : LegalCall f x)
    (h : HarmlessCall f x) :
    callOne (fun c ↦ (f c).pollChannel) x =
        .ok (fun c ↦ (update f x.1 ((f x.1).next x.2) c).pollChannel) ∧
      callOne (fun c ↦ (f c).epollChannel) x =
        .ok (fun c ↦ (update f x.1 ((f x.1).next x.2) c).epollChannel) := by
  obtain ⟨hpoll, hepoll⟩ := Wish.perform_next hlegal h
  constructor
  · rw [callOne, hpoll]
    exact congrArg Except.ok (comp_update Wish.pollChannel f x.1 _).symm
  · rw [callOne, hepoll]
    exact congrArg Except.ok (comp_update Wish.epollChannel f x.1 _).symm

theorem entriesAgree_nil : EntriesAgree f [] :=
  ⟨_, _, rfl, rfl, fun c ↦ (f c).watched_eq⟩

theorem entriesAgree_cons {f : ι → Wish} {x : ι × ChannelCall} (hlegal : LegalCall f x)
    (h : HarmlessCall f x) (xs : List (ι × ChannelCall)) :
    EntriesAgree f (x :: xs) ↔ EntriesAgree (update f x.1 ((f x.1).next x.2)) xs := by
  obtain ⟨hpoll, hepoll⟩ := callOne_next hlegal h
  rw [EntriesAgree, runAll, runAll, hpoll, hepoll]
  rfl

/-- After a call that is not harmless the entries do not agree. -/
theorem harmless_of_entriesAgree {f : ι → Wish} {x : ι × ChannelCall} (hlegal : LegalCall f x)
    (h : EntriesAgree f [x]) : HarmlessCall f x := by
  intro hparts
  obtain ⟨p, e, hp, he, hwatched⟩ := h
  obtain ⟨p', hp', hpnil⟩ := runAll_cons_eq_ok.mp hp
  obtain ⟨e', he', henil⟩ := runAll_cons_eq_ok.mp he
  cases hpnil
  cases henil
  obtain ⟨pc, hpc, rfl⟩ := map_eq_ok.mp hp'
  obtain ⟨ec, hec, rfl⟩ := map_eq_ok.mp he'
  have hc := hwatched x.1
  rw [update_self, update_self] at hc
  exact Wish.watched_ne hlegal hparts hpc hec hc

theorem entriesAgree_iff {f : ι → Wish} {xs : List (ι × ChannelCall)}
    (hlegal : Along wishStep LegalCall f xs) :
    (∀ pre, pre <+: xs → EntriesAgree f pre) ↔ Along wishStep HarmlessCall f xs := by
  induction xs generalizing f with
  | nil =>
    constructor
    · intro _
      trivial
    · intro _ pre hpre
      rw [prefix_nil.mp hpre]
      exact entriesAgree_nil f
  | cons x xs ih =>
    have hrest := ih (hlegal.2 _ rfl)
    constructor
    · intro h
      have hx := harmless_of_entriesAgree hlegal.1 (h [x] ⟨xs, rfl⟩)
      refine ⟨hx, ?_⟩
      rintro f' ⟨⟩
      refine hrest.mp fun pre hpre ↦ ?_
      exact (entriesAgree_cons hlegal.1 hx pre).mp (h _ ((prefix_cons_inj x).mpr hpre))
    · rintro ⟨hx, htail⟩ pre hpre
      rcases prefix_cons_iff.mp hpre with rfl | ⟨pre', rfl, hpre'⟩
      · exact entriesAgree_nil f
      · exact (entriesAgree_cons hlegal.1 hx pre').mpr (hrest.mpr (htail _ rfl) pre' hpre')

/-- **The pollers agree.** For channels with distinct descriptors and every sequence of calls in
which `remove` is only called on registered channels without events, the two pollers ask the kernel
the same after every call exactly if every call is harmless. -/
theorem pollers_agree_iff {fd : ι → ℕ} (hfd : Injective fd) {xs : List (ι × ChannelCall)}
    (hlegal : Along wishStep LegalCall (fun _ ↦ Wish.new) xs) :
    (∀ pre, pre <+: xs → Agree fd pre) ↔ Along wishStep HarmlessCall (fun _ ↦ Wish.new) xs := by
  rw [← entriesAgree_iff hlegal]
  exact forall₂_congr fun pre _ ↦ agree_iff hfd pre

end Family

/-- Two channels whose events come and go, and one of them is removed. -/
theorem pollers_agree_two_channels :
    Agree (fun b : Bool ↦ if b then 8 else 7)
      [(false, .enableReading), (true, .enableWriting), (false, .enableWriting),
        (true, .disableWriting), (true, .enableReading), (false, .disableAll), (false, .remove),
        (true, .disableReading)] := by
  have hfd : Injective fun b : Bool ↦ if b then 8 else 7 := by decide
  exact (pollers_agree_iff hfd (by decide +kernel)).mpr (by decide +kernel) _ prefix_rfl

/-- Disabling all events twice leaves the descriptor watched by `EPollPoller`, with an empty mask.
-/
theorem pollers_part_disableAll_twice :
    Along wishStep LegalCall (fun _ : Unit ↦ Wish.new)
        [((), .enableReading), ((), .disableAll), ((), .disableAll)] ∧
      ∃ (p : Watch Unit (PollPoller Unit)) (e : Watch Unit (EPollPoller Unit)),
        runAll (Watch.call fun _ ↦ 7) Watch.new
            [((), .enableReading), ((), .disableAll), ((), .disableAll)] = .ok p ∧
          runAll (Watch.call fun _ ↦ 7) Watch.new
            [((), .enableReading), ((), .disableAll), ((), .disableAll)] = .ok e ∧
          (7, 0) ∈ e.asked ∧ p.asked = ∅ := by
  refine ⟨by decide +kernel, _, _, rfl, rfl, rfl, ?_⟩
  refine Set.eq_empty_of_forall_notMem ?_
  rintro x ⟨pfd, hpfd, hpos, -⟩
  rw [mem_singleton.mp hpfd] at hpos
  exact absurd hpos (by decide)

end Fishnet
