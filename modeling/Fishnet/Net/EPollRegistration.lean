import Fishnet.Net.EPollPollerEntry

/-!
# Registration in `EPollPoller`

`index_`, `channels_` and the interest list of the kernel are changed at different points of
`updateChannel` and `removeChannel`. Here they are followed through every sequence of these calls,
with any masks: the events need not be those that `Channel` sets.

`EPollPoller::update` only logs a deletion that fails, so the state does not show whether one has.
The functions are therefore written out once more with a history of the calls to `epoll_ctl`
(`Traced`). Without the history they are the functions of `EPollPoller`
(`Traced.updateChannel_eq`, `Traced.removeChannel_eq`).

## Main results

* `Traced.registration_in_step`: the three stay in step, and no call to `epoll_ctl` fails.
-/

namespace Fishnet

open EpollOp Function

namespace EPollPoller

/-- A call to `epoll_ctl`, and whether it succeeds. -/
structure CtlCall where
  operation : EpollOp
  fd : ℤ
  events : EventMask
  succeeds : Bool
  deriving DecidableEq, Repr

/-- The poller with the calls to `epoll_ctl` so far. No function reads them. -/
structure Traced (ι : Type) where
  watch : EPollWatch ι
  calls : List CtlCall

/-- A call on the poller; an update comes after the channel has set its events. -/
inductive PollerCall (ι : Type) where
  | updateChannel (c : ι) (events : EventMask)
  | removeChannel (c : ι)
  deriving DecidableEq, Repr

/-- The masks of the last updates, after a call. -/
def PollerCall.lastMask {ι : Type} [DecidableEq ι] (masks : ι → EventMask) :
    PollerCall ι → ι → EventMask
  | updateChannel c events => Function.update masks c events
  | removeChannel _ => masks

namespace Traced

variable {ι : Type} [DecidableEq ι]

def new : Traced ι := ⟨Watch.new, []⟩

variable (fd : ι → ℕ)

/-- The call to `epoll_ctl` in `update`. -/
def ctlCall (operation : EpollOp) (w : EPollWatch ι) (c : ι) : CtlCall where
  operation := operation
  fd := fd c
  events := (w.channel c).events
  succeeds := (epollCtl w.poller.interest operation (fd c) (w.channel c).events).isSome

/-! ## The functions -/

def update (operation : EpollOp) (s : Traced ι) (c : ι) : Checked (Traced ι) := do
  let w ← EPollPoller.update fd operation s.watch c
  pure ⟨w, s.calls ++ [ctlCall fd operation s.watch c]⟩

/-- `updateChannel` for a channel that is not in the interest list. -/
def addChannel (s : Traced ι) (c : ι) : Checked (Traced ι) := do
  let w := s.watch
  let w ←
    if (w.channel c).index = kNew then do
      assert (w.poller.channels (fd c) = none)
      pure { w with poller :=
        { w.poller with channels := Function.update w.poller.channels (fd c) (some c) } }
    else do
      assert (w.poller.channels (fd c) ≠ none)
      assert (w.poller.channels (fd c) = some c)
      pure w
  update fd EPOLL_CTL_ADD ⟨w.setIndex c kAdded, s.calls⟩ c

/-- `updateChannel` for a channel that is. -/
def modifyChannel (s : Traced ι) (c : ι) : Checked (Traced ι) := do
  let w := s.watch
  assert (w.poller.channels (fd c) ≠ none)
  assert (w.poller.channels (fd c) = some c)
  assert ((w.channel c).index = kAdded)
  if (w.channel c).events = 0 then do
    let s ← update fd EPOLL_CTL_DEL s c
    pure ⟨s.watch.setIndex c kDeleted, s.calls⟩
  else update fd EPOLL_CTL_MOD s c

def updateChannel (s : Traced ι) (c : ι) : Checked (Traced ι) :=
  if (s.watch.channel c).index = kNew ∨ (s.watch.channel c).index = kDeleted then
    addChannel fd s c
  else modifyChannel fd s c

def removeChannel (s : Traced ι) (c : ι) : Checked (Traced ι) := do
  let w := s.watch
  assert (w.poller.channels (fd c) ≠ none)
  assert (w.poller.channels (fd c) = some c)
  assert ((w.channel c).events = 0)
  let index := (w.channel c).index
  assert (index = kAdded ∨ index = kDeleted)
  let w := { w with poller :=
    { w.poller with channels := Function.update w.poller.channels (fd c) none } }
  let s ← if index = kAdded then update fd EPOLL_CTL_DEL ⟨w, s.calls⟩ c else pure ⟨w, s.calls⟩
  pure ⟨s.watch.setIndex c kNew, s.calls⟩

def step (s : Traced ι) : PollerCall ι → Checked (Traced ι)
  | .updateChannel c events => updateChannel fd ⟨s.watch.setEvents c events, s.calls⟩ c
  | .removeChannel c => removeChannel fd ⟨s.watch.setRemoved c, s.calls⟩ c

/-- A channel is removed only if it is registered and has no events. -/
def Permitted (s : Traced ι) : PollerCall ι → Prop
  | .updateChannel _ _ => True
  | .removeChannel c => Registered fd s.watch c ∧ (s.watch.channel c).events = 0

instance (s : Traced ι) (x : PollerCall ι) : Decidable (Permitted fd s x) :=
  match x with
  | .updateChannel _ _ => inferInstanceAs (Decidable True)
  | .removeChannel _ => inferInstanceAs (Decidable (_ ∧ _))

/-! ## Without the history -/

/-- The operation that an update asks of the kernel. -/
def operation (fields : ChannelFields) : EpollOp :=
  if fields.index = kNew ∨ fields.index = kDeleted then EPOLL_CTL_ADD
  else if fields.events = 0 then EPOLL_CTL_DEL else EPOLL_CTL_MOD

variable {fd} {s : Traced ι} {c : ι}

omit [DecidableEq ι] in
theorem update_eq (op : EpollOp) :
    update fd op s c = (EPollPoller.update fd op s.watch c).map
      fun w ↦ ⟨w, s.calls ++ [ctlCall fd op s.watch c]⟩ := by
  rw [update]
  cases EPollPoller.update fd op s.watch c <;> rfl

/-- The history does not depend on `index_` and `channels_`. -/
theorem ctlCall_setIndex (op : EpollOp) (w : EPollWatch ι) (idx : ℤ) :
    ctlCall fd op (w.setIndex c idx) c = ctlCall fd op w c := by
  rw [ctlCall, ctlCall, Watch.setIndex_self]
  rfl

theorem addChannel_eq : addChannel fd s c = (EPollPoller.addChannel fd s.watch c).map
    fun w ↦ ⟨w, s.calls ++ [ctlCall fd EPOLL_CTL_ADD s.watch c]⟩ := by
  rw [addChannel, EPollPoller.addChannel]
  by_cases hnew : (s.watch.channel c).index = kNew
  · rw [if_pos hnew, if_pos hnew, except_map_bind]
    refine bind_congr fun _ ↦ ?_
    rw [pure_bind, pure_bind]
    change update fd _ _ c = _
    rw [update_eq, ctlCall_setIndex]
    rfl
  · rw [if_neg hnew, if_neg hnew, except_map_bind]
    refine bind_congr fun _ ↦ ?_
    rw [except_map_bind]
    refine bind_congr fun _ ↦ ?_
    rw [pure_bind, pure_bind]
    change update fd _ _ c = _
    rw [update_eq, ctlCall_setIndex]

theorem modifyChannel_eq : modifyChannel fd s c = (EPollPoller.modifyChannel fd s.watch c).map
    fun w ↦ ⟨w, s.calls ++ [ctlCall fd
      (if (s.watch.channel c).events = 0 then EPOLL_CTL_DEL else EPOLL_CTL_MOD) s.watch c]⟩ := by
  rw [modifyChannel, EPollPoller.modifyChannel, except_map_bind]
  refine bind_congr fun _ ↦ ?_
  rw [except_map_bind]
  refine bind_congr fun _ ↦ ?_
  rw [except_map_bind]
  refine bind_congr fun _ ↦ ?_
  by_cases hzero : (s.watch.channel c).events = 0
  · rw [if_pos hzero, if_pos hzero, if_pos hzero, update_eq]
    cases EPollPoller.update fd EPOLL_CTL_DEL s.watch c <;> rfl
  · rw [if_neg hzero, if_neg hzero, if_neg hzero, update_eq]

/-- With the history removed, `updateChannel` is that of `EPollPoller`; it makes one call. -/
theorem updateChannel_eq : updateChannel fd s c = (EPollPoller.updateChannel fd s.watch c).map
    fun w ↦ ⟨w, s.calls ++ [ctlCall fd (operation (s.watch.channel c)) s.watch c]⟩ := by
  rw [updateChannel, EPollPoller.updateChannel, operation]
  split
  · exact addChannel_eq
  · exact modifyChannel_eq

/-- With the history removed, `removeChannel` is that of `EPollPoller`; it makes a call if the
channel is in the interest list. -/
theorem removeChannel_eq : removeChannel fd s c = (EPollPoller.removeChannel fd s.watch c).map
    fun w ↦ ⟨w, s.calls ++ if (s.watch.channel c).index = kAdded
      then [ctlCall fd EPOLL_CTL_DEL s.watch c] else []⟩ := by
  rw [removeChannel, EPollPoller.removeChannel, except_map_bind]
  refine bind_congr fun _ ↦ ?_
  rw [except_map_bind]
  refine bind_congr fun _ ↦ ?_
  rw [except_map_bind]
  refine bind_congr fun _ ↦ ?_
  rw [except_map_bind]
  refine bind_congr fun _ ↦ ?_
  by_cases hadded : (s.watch.channel c).index = kAdded
  · rw [if_pos hadded, if_pos hadded, if_pos hadded, update_eq]
    cases EPollPoller.update fd EPOLL_CTL_DEL _ c <;> rfl
  · rw [if_neg hadded, if_neg hadded, if_neg hadded, List.append_nil]
    rfl

/-! ## In step -/

/-- What holds between the calls, where `masks` are those of the last updates. -/
structure InStep (fd : ι → ℕ) (s : Traced ι) (masks : ι → EventMask) : Prop where
  situation : ∀ c, Situation c (s.watch.channel c).index (s.watch.poller.channels (fd c))
    (s.watch.poller.interest (fd c))
  events : ∀ c, (s.watch.channel c).events = masks c
  watched : ∀ c m, s.watch.poller.interest (fd c) = some m → m = masks c
  channels_fd : ∀ f c, s.watch.poller.channels f = some c → f = fd c
  interest_fd : ∀ f m, s.watch.poller.interest f = some m → ∃ c, f = fd c
  calls : ∀ x ∈ s.calls, x.succeeds = true

variable {masks : ι → EventMask}

theorem inStep_new : InStep fd (new : Traced ι) fun _ ↦ 0 where
  situation _ := Or.inl ⟨rfl, rfl, rfl⟩
  events _ := rfl
  watched _ _ h := by cases h
  channels_fd _ _ h := by cases h
  interest_fd _ _ h := by cases h
  calls _ h := by cases h

/-- One channel has changed, and the kernel has granted what it was asked. -/
theorem InStep.changed (h : InStep fd s masks) (hfd : Injective fd)
    {fields : ChannelFields} {owner : Option ι} {interest : Option EventMask} {calls : List CtlCall}
    (hsituation : Situation c fields.index owner interest)
    (hwatched : ∀ m, interest = some m → m = fields.events)
    (hcalls : ∀ x ∈ calls, x.succeeds = true) :
    InStep fd ⟨EPollPoller.changed fd s.watch c fields owner interest, s.calls ++ calls⟩
      (Function.update masks c fields.events) where
  situation d := by
    rcases eq_or_ne d c with rfl | hd
    · rw [changed_self.1, changed_self.2.1, changed_self.2.2]
      exact hsituation
    · rw [(changed_of_ne hfd hd).1, (changed_of_ne hfd hd).2.1, (changed_of_ne hfd hd).2.2]
      exact h.situation d
  events d := by
    rcases eq_or_ne d c with rfl | hd
    · rw [changed_self.1, update_self]
    · rw [(changed_of_ne hfd hd).1, update_of_ne hd]
      exact h.events d
  watched d m hm := by
    rcases eq_or_ne d c with rfl | hd
    · rw [changed_self.2.2] at hm
      rw [update_self]
      exact hwatched m hm
    · rw [(changed_of_ne hfd hd).2.2] at hm
      rw [update_of_ne hd]
      exact h.watched d m hm
  channels_fd f d hd := by
    rcases eq_or_ne f (fd c) with rfl | hf
    · rw [changed_self.2.1] at hd
      rcases hsituation with ⟨-, ho, -⟩ | ⟨-, ho, -⟩ | ⟨-, ho, -⟩
      · rw [ho] at hd
        cases hd
      · rw [ho] at hd
        cases hd
        rfl
      · rw [ho] at hd
        cases hd
        rfl
    · exact h.channels_fd f d ((update_of_ne hf ..).symm.trans hd)
  interest_fd f m hm := by
    rcases eq_or_ne f (fd c) with rfl | hf
    · exact ⟨c, rfl⟩
    · exact h.interest_fd f m ((update_of_ne hf ..).symm.trans hm)
  calls x hx := by
    rcases List.mem_append.mp hx with hx | hx
    · exact h.calls x hx
    · exact hcalls x hx

theorem InStep.updateChannel (h : InStep fd s masks) (hfd : Injective fd)
    (events : EventMask) :
    ∃ s', step fd s (.updateChannel c events) = .ok s' ∧
      InStep fd s' (Function.update masks c events) := by
  have hadded : Situation c kAdded (some c) (some events) :=
    Or.inr (Or.inl ⟨rfl, rfl, Option.some_ne_none _⟩)
  have hdeleted : Situation c kDeleted (some c) none := Or.inr (Or.inr ⟨rfl, rfl, rfl⟩)
  set call := ctlCall fd (operation ((s.watch.setEvents c events).channel c))
    (s.watch.setEvents c events) c with hcall
  -- the call succeeds in each of the three situations
  have hgranted : ∀ x ∈ [call], x.succeeds = true := by
    intro x hx
    rw [List.mem_singleton.mp hx, hcall]
    change (epollCtl s.watch.poller.interest _ _ _).isSome = true
    rw [Watch.setEvents_self, operation]
    rcases h.situation c with ⟨hi, -, hn⟩ | ⟨hi, -, hn⟩ | ⟨hi, -, hn⟩
    · rw [if_pos (Or.inl hi)]
      simp [epollCtl, hn]
    · rw [if_neg (by simp [hi, kAdded, kNew, kDeleted])]
      split <;> simp [epollCtl, hn]
    · rw [if_pos (Or.inr hi)]
      simp [epollCtl, hn]
  rw [step, updateChannel_eq]
  rcases h.situation c with ⟨hi, ho, hn⟩ | ⟨hi, ho, hn⟩ | ⟨hi, ho, hn⟩
  · rw [updateChannel_of_not_added (Or.inl ⟨hi, ho⟩) hn]
    exact ⟨_, rfl, h.changed hfd hadded (fun m hm ↦ (Option.some.inj hm).symm) hgranted⟩
  · rw [updateChannel_of_added hi ho hn]
    refine ⟨_, rfl, ?_⟩
    split
    · exact h.changed hfd hdeleted (fun m hm ↦ by cases hm) hgranted
    · exact h.changed hfd hadded (fun m hm ↦ (Option.some.inj hm).symm) hgranted
  · rw [updateChannel_of_not_added (Or.inr ⟨hi, ho⟩) hn]
    exact ⟨_, rfl, h.changed hfd hadded (fun m hm ↦ (Option.some.inj hm).symm) hgranted⟩

theorem InStep.removeChannel (h : InStep fd s masks) (hfd : Injective fd)
    (hpermitted : Permitted fd s (.removeChannel c)) :
    ∃ s', step fd s (.removeChannel c) = .ok s' ∧ InStep fd s' masks := by
  obtain ⟨hreg, hevents⟩ := hpermitted
  have hnew : Situation c kNew none none := Or.inl ⟨rfl, rfl, rfl⟩
  have hmasks : Function.update masks c 0 = masks := by
    rw [← hevents, h.events c, update_eq_self]
  have htracked : (s.watch.channel c).index = kAdded ∧ s.watch.poller.interest (fd c) ≠ none ∨
      (s.watch.channel c).index = kDeleted ∧ s.watch.poller.interest (fd c) = none := by
    rcases h.situation c with ⟨-, ho, -⟩ | ⟨hi, -, hn⟩ | ⟨hi, -, hn⟩
    · rw [Registered, ho] at hreg
      cases hreg
    · exact Or.inl ⟨hi, hn⟩
    · exact Or.inr ⟨hi, hn⟩
  have hgranted : ∀ x ∈ (if ((s.watch.setRemoved c).channel c).index = kAdded
      then [ctlCall fd EPOLL_CTL_DEL (s.watch.setRemoved c) c] else []), x.succeeds = true := by
    intro x hx
    rw [Watch.setRemoved_self] at hx
    rcases htracked with ⟨hi, hn⟩ | ⟨hi, -⟩
    · rw [if_pos hi] at hx
      rw [List.mem_singleton.mp hx]
      change (epollCtl s.watch.poller.interest _ _ _).isSome = true
      simp [epollCtl, hn]
    · rw [if_neg (by simp [hi, kAdded, kDeleted])] at hx
      cases hx
  rw [step, removeChannel_eq, removeChannel_of_tracked hevents hreg htracked]
  refine ⟨_, rfl, ?_⟩
  rw [← hmasks]
  exact h.changed hfd hnew (fun m hm ↦ by cases hm) hgranted

theorem InStep.step (hfd : Injective fd) (s : Traced ι) (masks : ι → EventMask)
    (x : PollerCall ι) (h : InStep fd s masks) (hx : Permitted fd s x) :
    ∃ s', step fd s x = .ok s' ∧ InStep fd s' (PollerCall.lastMask masks x) := by
  cases x with
  | updateChannel c events => exact h.updateChannel hfd events
  | removeChannel c => exact h.removeChannel hfd hx

/-- **The registration stays in step.** Over any sequence of updates, with any masks, and permitted
removals, no assertion fails and the process is not aborted. After it `channels_` has exactly the
channels whose index is `kAdded` or `kDeleted`; the interest list has exactly the descriptors of
those whose index is `kAdded`, each with the mask of its last update; and no call to `epoll_ctl` so
far has failed. -/
theorem registration_in_step (hfd : Injective fd) (xs : List (PollerCall ι))
    (hxs : Along (step fd) (Permitted fd) new xs) :
    ∃ s, runAll (step fd) new xs = .ok s ∧
      (∀ f c, s.watch.poller.channels f = some c ↔
        f = fd c ∧ ((s.watch.channel c).index = kAdded ∨ (s.watch.channel c).index = kDeleted)) ∧
      (∀ f m, s.watch.poller.interest f = some m ↔
        ∃ c, f = fd c ∧ (s.watch.channel c).index = kAdded ∧
          m = xs.foldl PollerCall.lastMask (fun _ ↦ 0) c) ∧
      ∀ x ∈ s.calls, x.succeeds = true := by
  obtain ⟨s, hrun, hs⟩ := runAll_simulates (InStep.step hfd) inStep_new hxs
  refine ⟨s, hrun, fun f c ↦ ⟨fun hf ↦ ?_, ?_⟩, fun f m ↦ ⟨fun hf ↦ ?_, ?_⟩, hs.calls⟩
  · obtain rfl := hs.channels_fd f c hf
    rcases hs.situation c with ⟨-, ho, -⟩ | ⟨hi, -, -⟩ | ⟨hi, -, -⟩
    · rw [ho] at hf
      cases hf
    · exact ⟨rfl, Or.inl hi⟩
    · exact ⟨rfl, Or.inr hi⟩
  · rintro ⟨rfl, hindex⟩
    rcases hs.situation c with ⟨hi, -, -⟩ | ⟨-, ho, -⟩ | ⟨-, ho, -⟩
    · rw [hi] at hindex
      simp [kNew, kAdded, kDeleted] at hindex
    · exact ho
    · exact ho
  · obtain ⟨c, rfl⟩ := hs.interest_fd f m hf
    refine ⟨c, rfl, ?_, hs.watched c m hf⟩
    rcases hs.situation c with ⟨-, -, hn⟩ | ⟨hi, -, -⟩ | ⟨-, -, hn⟩
    · rw [hn] at hf
      cases hf
    · exact hi
    · rw [hn] at hf
      cases hf
  · rintro ⟨c, rfl, hindex, rfl⟩
    rcases hs.situation c with ⟨hi, -, -⟩ | ⟨-, -, hn⟩ | ⟨hi, -, -⟩
    · rw [hi] at hindex
      simp [kNew, kAdded] at hindex
    · obtain ⟨m, hm⟩ := Option.ne_none_iff_exists'.mp hn
      rw [hm, hs.watched c m hm]
    · rw [hi] at hindex
      simp [kDeleted, kAdded] at hindex

/-- A channel is added, disabled, enabled again with a mask that `Channel` does not use, disabled
twice and removed, with another one beside it. -/
theorem registration_in_step_two :
    ∃ s : Traced Bool, runAll (step fun c ↦ if c then 5 else 3) new
        [.updateChannel true 1, .updateChannel false 0, .updateChannel true 0,
          .updateChannel true 24, .updateChannel true 0, .removeChannel true] = .ok s ∧
      s.watch.poller.interest 3 = some 0 ∧ s.watch.poller.channels 5 = none := by
  have hfd : Injective (fun c : Bool ↦ if c then 5 else 3) := by decide
  obtain ⟨s, hrun, hchannels, hinterest, -⟩ := registration_in_step hfd
    [.updateChannel true 1, .updateChannel false 0, .updateChannel true 0,
      .updateChannel true 24, .updateChannel true 0, .removeChannel true] (by decide +kernel)
  have hindex : (runAll (step fun c : Bool ↦ if c then 5 else 3) new
      [.updateChannel true 1, .updateChannel false 0, .updateChannel true 0,
        .updateChannel true 24, .updateChannel true 0, .removeChannel true]).map
      (fun s ↦ ((s.watch.channel true).index, (s.watch.channel false).index)) =
        .ok (kNew, kAdded) := by decide +kernel
  obtain ⟨s', hs', heq⟩ := map_eq_ok.mp hindex
  obtain rfl := Except.ok.inj (hrun.symm.trans hs')
  obtain ⟨htrue, hfalse⟩ := Prod.mk.inj heq
  refine ⟨s, hrun, (hinterest 3 0).mpr ⟨false, rfl, hfalse, rfl⟩, ?_⟩
  by_contra hne
  obtain ⟨c, hc⟩ := Option.ne_none_iff_exists'.mp hne
  obtain ⟨hfive, hi⟩ := (hchannels 5 c).mp hc
  cases c with
  | true =>
    rw [htrue] at hi
    revert hi
    decide
  | false => simp at hfive

end Traced

end EPollPoller

end Fishnet
