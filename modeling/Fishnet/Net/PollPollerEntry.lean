import Fishnet.Net.PollerEntry

/-!
# The entries of `PollPoller`

The array `pollfds_` and the channels know each other: every place belongs to one registered
channel, whose `index_` is that place, and a registered channel finds its own descriptor there,
possibly negated. The calls keep this invariant. The one that takes an argument is the removal,
where the last entry moves to the place that becomes free.

## Main results

* `PollPoller.refines`: the entries describe `PollPoller`.
-/

namespace Fishnet

open Function List Watch

namespace PollPoller

section Array

variable {ι : Type} (fd : ι → ℕ)

/-- `channels_` has the channel. -/
def Registered (w : PollWatch ι) (c : ι) : Prop := w.poller.channels (fd c) = some c

/-- What the kernel is asked through a place of the array. -/
def askedAt (w : PollWatch ι) (idx : ℤ) : Option EventMask :=
  (w.poller.pollfds[idx.toNat]?).bind fun pfd ↦ if pfd.fd < 0 then none else some pfd.mask

/-- The array and the channels know each other. -/
structure Inv (w : PollWatch ι) : Prop where
  keyed : ∀ f c, w.poller.channels f = some c → f = fd c
  place : ∀ c, Registered fd w c → ∃ (i : ℕ) (pfd : PollFd),
    (w.channel c).index = i ∧ w.poller.pollfds[i]? = some pfd ∧
      (pfd.fd = fd c ∨ pfd.fd = -fd c - 1) ∧ pfd.events = (w.channel c).events.setWidth 16
  owner : ∀ (i : ℕ) pfd, w.poller.pollfds[i]? = some pfd →
    ∃ c, Registered fd w c ∧ (w.channel c).index = i
  isMask : ∀ c, IsMask (w.channel c).events

variable {fd} {w : PollWatch ι} {c d : ι}

/-- A channel that is not registered is not there under another name either. -/
theorem Inv.channels_eq_none (hw : Inv fd w) (hfd : Injective fd)
    (h : ¬Registered fd w c) : w.poller.channels (fd c) = none := by
  cases hc : w.poller.channels (fd c) with
  | none => rfl
  | some d =>
    have hcd : c = d := hfd (by exact_mod_cast hw.keyed _ _ hc)
    subst hcd
    exact absurd hc h

theorem Inv.index_nonneg (hw : Inv fd w) (h : Registered fd w c) : ¬(w.channel c).index < 0 := by
  obtain ⟨i, pfd, hi, -⟩ := hw.place c h
  rw [hi]
  omega

theorem Inv.place_at (hw : Inv fd w) (h : Registered fd w c) {i : ℕ}
    (hi : (w.channel c).index = i) : ∃ pfd, w.poller.pollfds[i]? = some pfd ∧
      (pfd.fd = fd c ∨ pfd.fd = -fd c - 1) ∧ pfd.events = (w.channel c).events.setWidth 16 := by
  obtain ⟨j, pfd, hj, hpfd⟩ := hw.place c h
  rw [hi] at hj
  obtain rfl : i = j := by exact_mod_cast hj
  exact ⟨pfd, hpfd⟩

theorem Inv.index_ne (hw : Inv fd w) (hfd : Injective fd) (hc : Registered fd w c)
    (hd : Registered fd w d) (hne : d ≠ c) : (w.channel d).index ≠ (w.channel c).index := by
  intro heq
  obtain ⟨i, pfd, hi, hpfd, hfdc, -⟩ := hw.place c hc
  obtain ⟨pfd', hpfd', hfdd, -⟩ := hw.place_at hd (heq.trans hi)
  rw [hpfd] at hpfd'
  cases hpfd'
  exact hne (hfd (by omega))

/-- The owner of a place, with what is written there. -/
theorem Inv.owner_entry (hw : Inv fd w) {i : ℕ} {pfd : PollFd}
    (hi : w.poller.pollfds[i]? = some pfd) :
    ∃ c, Registered fd w c ∧ (w.channel c).index = i ∧
      (pfd.fd = fd c ∨ pfd.fd = -fd c - 1) := by
  obtain ⟨c, hc, hindex⟩ := hw.owner i pfd hi
  obtain ⟨pfd', hpfd', hfdc, -⟩ := hw.place_at hc hindex
  rw [hi] at hpfd'
  cases hpfd'
  exact ⟨c, hc, hindex, hfdc⟩

theorem getElem?_concat_of_some {l : List PollFd} {i : ℕ} {x y : PollFd} (h : l[i]? = some x) :
    (l ++ [y])[i]? = some x := by
  rw [List.getElem?_append_left (List.getElem?_eq_some_iff.mp h).1, h]

end Array

variable {ι : Type} [DecidableEq ι] (fd : ι → ℕ)

instance (w : PollWatch ι) (c : ι) : Decidable (Registered fd w c) :=
  inferInstanceAs (Decidable (_ = _))

/-- The entry for a channel. -/
def entry (w : PollWatch ι) (c : ι) : Registration where
  index := if (w.channel c).index < 0 then .kNew else .kAdded
  inChannels := decide (Registered fd w c)
  watched := if Registered fd w c then askedAt w (w.channel c).index else none

/-- A channel with its entry. -/
def view (w : PollWatch ι) (c : ι) : Channel :=
  ⟨.poll, (w.channel c).events, (w.channel c).addedToLoop, entry fd w c⟩

variable {fd} {w w' : PollWatch ι} {c d : ι} {e : EventMask}

theorem inv_new : Inv fd (Watch.new : PollWatch ι) where
  keyed f c h := by cases h
  place c h := by cases h
  owner i pfd h := by cases h
  isMask c := Or.inl rfl

theorem view_new (c : ι) : view fd (Watch.new : PollWatch ι) c = Channel.new .poll := rfl

/-- An entry depends on what the place of the channel asks, and not on where that place is. -/
theorem view_eq_of_asked (hevents : (w'.channel d).events = (w.channel d).events)
    (hadded : (w'.channel d).addedToLoop = (w.channel d).addedToLoop)
    (hindex : (w'.channel d).index < 0 ↔ (w.channel d).index < 0)
    (hregistered : Registered fd w' d ↔ Registered fd w d)
    (hplace : Registered fd w d →
      askedAt w' (w'.channel d).index = askedAt w (w.channel d).index) :
    view fd w' d = view fd w d := by
  rw [view, view, entry, entry, hevents, hadded]
  simp only [hindex]
  by_cases h : Registered fd w d
  · rw [if_pos h, if_pos (hregistered.mpr h), hplace h, decide_eq_true h,
      decide_eq_true (hregistered.mpr h)]
  · have h' : ¬Registered fd w' d := fun h' ↦ h (hregistered.mp h')
    rw [if_neg h, if_neg h', decide_eq_false h, decide_eq_false h']

theorem view_congr (hchannel : w'.channel d = w.channel d)
    (hregistered : Registered fd w' d ↔ Registered fd w d)
    (hplace : Registered fd w d → askedAt w' (w.channel d).index = askedAt w (w.channel d).index) :
    view fd w' d = view fd w d := by
  refine view_eq_of_asked ?_ ?_ ?_ hregistered ?_
  all_goals rw [hchannel]
  exact hplace

theorem view_of_registered (h : Registered fd w c) (hindex : ¬(w.channel c).index < 0) :
    view fd w c = ⟨.poll, (w.channel c).events, (w.channel c).addedToLoop,
      ⟨.kAdded, true, askedAt w (w.channel c).index⟩⟩ := by
  rw [view, entry, if_neg hindex, if_pos h, decide_eq_true h]

theorem view_of_not_registered (h : ¬Registered fd w c) :
    view fd w c = ⟨.poll, (w.channel c).events, (w.channel c).addedToLoop,
      ⟨if (w.channel c).index < 0 then .kNew else .kAdded, false, none⟩⟩ := by
  rw [view, entry, if_neg h, decide_eq_false h]

/-! ### A new place -/

/-- The state after a first update. -/
def added (fd : ι → ℕ) (w : PollWatch ι) (c : ι) (e : EventMask) :
    PollWatch ι where
  channel := update w.channel c ⟨e, w.poller.pollfds.length, true⟩
  poller := ⟨update w.poller.channels (fd c) (some c),
    w.poller.pollfds ++ [⟨fd c, e.setWidth 16⟩]⟩

theorem setIndex_eq_added {n : ℤ} (hn : n = w.poller.pollfds.length) :
    (⟨((w.setEvents c e).setIndex c n).channel, (added fd w c e).poller⟩ :
      PollWatch ι) = added fd w c e := by
  rw [hn, Watch.setIndex, setEvents_self, added, Watch.setEvents, update_idem]

theorem length_concat_sub_one (l : List PollFd) (pfd : PollFd) :
    ((l ++ [pfd]).length : ℤ) - 1 = l.length := by
  rw [length_append, length_singleton]
  omega

theorem updateChannel_of_index_neg (hnone : w.poller.channels (fd c) = none)
    (hindex : (w.channel c).index < 0) :
    updateChannel fd (w.setEvents c e) c = .ok (added fd w c e) := by
  have hfields : (w.setEvents c e).channel c = ⟨e, (w.channel c).index, true⟩ :=
    setEvents_self
  have hnone' : (w.setEvents c e).poller.channels (fd c) = none := hnone
  rw [updateChannel, hfields, if_pos hindex, addChannel, assert_bind_of hnone', hfields]
  exact congrArg Except.ok (setIndex_eq_added (length_concat_sub_one _ _))

theorem registered_added (hfd : Injective fd) :
    Registered fd (added fd w c e) d ↔ d = c ∨ Registered fd w d := by
  by_cases hd : d = c
  · subst hd
    exact ⟨fun _ ↦ Or.inl rfl, fun _ ↦ update_self ..⟩
  · rw [or_iff_right hd]
    exact iff_of_eq (congrArg (· = some d) (update_of_ne (cast_fd_ne hfd hd) ..))

theorem channels_added_self : (added fd w c e).poller.channels (fd c) = some c :=
  update_self ..

theorem channels_added_of_ne {f : ℤ} (hf : f ≠ fd c) :
    (added fd w c e).poller.channels f = w.poller.channels f :=
  update_of_ne hf ..

theorem channel_added_of_ne (hd : d ≠ c) : (added fd w c e).channel d = w.channel d :=
  update_of_ne hd ..

theorem channel_added_self : (added fd w c e).channel c = ⟨e, w.poller.pollfds.length, true⟩ :=
  update_self ..

theorem inv_added (hw : Inv fd w) (hfd : Injective fd) (he : IsMask e)
    (hc : ¬Registered fd w c) : Inv fd (added fd w c e) where
  keyed f d h := by
    rcases eq_or_ne f (fd c) with rfl | hf
    · rw [channels_added_self] at h
      cases h
      rfl
    · rw [channels_added_of_ne hf] at h
      exact hw.keyed f d h
  place d h := by
    rcases eq_or_ne d c with rfl | hd
    · refine ⟨w.poller.pollfds.length, ⟨fd d, e.setWidth 16⟩, ?_, ?_, Or.inl rfl, ?_⟩
      · rw [channel_added_self]
      · exact getElem?_concat_length
      · rw [channel_added_self]
    · have hreg : Registered fd w d := ((registered_added hfd).mp h).resolve_left hd
      obtain ⟨i, pfd, hi, hpfd, hrest⟩ := hw.place d hreg
      rw [channel_added_of_ne hd]
      exact ⟨i, pfd, hi, getElem?_concat_of_some hpfd, hrest⟩
  owner i pfd h := by
    rcases lt_or_ge i w.poller.pollfds.length with hi | hi
    · have hold : w.poller.pollfds[i]? = some pfd := (getElem?_append_left hi).symm.trans h
      obtain ⟨d, hd, hindex⟩ := hw.owner i pfd hold
      have hne : d ≠ c := fun hdc ↦ hc (hdc ▸ hd)
      refine ⟨d, (registered_added hfd).mpr (Or.inr hd), ?_⟩
      rw [channel_added_of_ne hne, hindex]
    · have hlt : i < w.poller.pollfds.length + 1 := by
        have := (List.getElem?_eq_some_iff.mp h).1
        rwa [added, length_append, length_singleton] at this
      obtain rfl : i = w.poller.pollfds.length := by omega
      refine ⟨c, (registered_added hfd).mpr (Or.inl rfl), ?_⟩
      rw [channel_added_self]
  isMask d := by
    rcases eq_or_ne d c with rfl | hd
    · rw [channel_added_self]
      exact he
    · rw [channel_added_of_ne hd]
      exact hw.isMask d

theorem view_added (hw : Inv fd w) (hfd : Injective fd) (he : IsMask e) :
    view fd (added fd w c e) =
      update (view fd w) c ⟨.poll, e, true, ⟨.kAdded, true, some e⟩⟩ := by
  funext d
  rcases eq_or_ne d c with rfl | hd
  · have hindex : ¬((added fd w d e).channel d).index < 0 := by
      rw [channel_added_self]
      exact not_lt.mpr (Int.natCast_nonneg _)
    have hasked : askedAt (added fd w d e) w.poller.pollfds.length = some e := by
      have hpos : ¬(fd d : ℤ) < 0 := by omega
      rw [askedAt, Int.toNat_natCast, added, getElem?_concat_length, Option.bind_some,
        if_neg hpos, PollFd.mask, he.signExtend_setWidth]
    rw [update_self, view_of_registered ((registered_added hfd).mpr (Or.inl rfl)) hindex,
      channel_added_self, hasked]
  · rw [update_of_ne hd]
    refine view_congr (channel_added_of_ne hd) ?_ fun hreg ↦ ?_
    · rw [registered_added hfd, or_iff_right hd]
    · obtain ⟨i, pfd, hi, hpfd, -⟩ := hw.place d hreg
      rw [hi, askedAt, askedAt, Int.toNat_natCast, hpfd, added, getElem?_concat_of_some hpfd]

/-! ### A known place -/

/-- The state after an update of a channel at place `i`. -/
def modified (fd : ι → ℕ) (w : PollWatch ι) (c : ι) (e : EventMask) (i : ℕ) :
    PollWatch ι where
  channel := update w.channel c ⟨e, (w.channel c).index, true⟩
  poller := ⟨w.poller.channels,
    w.poller.pollfds.set i ⟨if e = 0 then -fd c - 1 else fd c, e.setWidth 16⟩⟩

theorem updateChannel_of_registered (hw : Inv fd w) (hc : Registered fd w c) {i : ℕ}
    (hi : (w.channel c).index = i) :
    updateChannel fd (w.setEvents c e) c = .ok (modified fd w c e i) := by
  have hfields : (w.setEvents c e).channel c = ⟨e, (w.channel c).index, true⟩ :=
    setEvents_self
  obtain ⟨pfd, hpfd, hfdc, -⟩ := hw.place_at hc hi
  have hlt : i < w.poller.pollfds.length := (List.getElem?_eq_some_iff.mp hpfd).1
  have hsome : (w.setEvents c e).poller.channels (fd c) = some c := hc
  have hne : (w.setEvents c e).poller.channels (fd c) ≠ none := by
    rw [hsome]
    exact Option.some_ne_none c
  have hbounds : 0 ≤ (w.channel c).index ∧
      (w.channel c).index < (w.setEvents c e).poller.pollfds.length := by
    rw [hi]
    exact ⟨Int.natCast_nonneg i, by exact_mod_cast hlt⟩
  have hplace : (w.setEvents c e).poller.pollfds[(w.channel c).index.toNat]? = some pfd := by
    rw [hi, Int.toNat_natCast]
    exact hpfd
  rw [updateChannel, hfields, if_neg (hw.index_nonneg hc), modifyChannel, assert_bind_of hne,
    assert_bind_of hsome, hfields, assert_bind_of hbounds, hplace]
  change (assert (pfd.fd = fd c ∨ pfd.fd = -fd c - 1) >>= _) = _
  rw [assert_bind_of hfdc]
  have htoNat : (w.channel c).index.toNat = i := by rw [hi, Int.toNat_natCast]
  exact congrArg (fun n ↦ Except.ok (⟨update w.channel c ⟨e, (w.channel c).index, true⟩,
    ⟨w.poller.channels, w.poller.pollfds.set n _⟩⟩ : PollWatch ι)) htoNat

/-- A channel with a stale index is refused. -/
theorem updateChannel_of_stale (hindex : ¬(w.channel c).index < 0)
    (hnone : w.poller.channels (fd c) = none) :
    updateChannel fd (w.setEvents c e) c = .error .assertion := by
  have hfields : (w.setEvents c e).channel c = ⟨e, (w.channel c).index, true⟩ :=
    setEvents_self
  have hnone' : ¬(w.setEvents c e).poller.channels (fd c) ≠ none := not_not.mpr hnone
  rw [updateChannel, hfields, if_neg hindex, modifyChannel, assert_bind_of_not hnone']

section Modified

variable {i : ℕ}

theorem channel_modified_of_ne (hd : d ≠ c) : (modified fd w c e i).channel d = w.channel d :=
  update_of_ne hd ..

theorem channel_modified_self : (modified fd w c e i).channel c = ⟨e, (w.channel c).index, true⟩ :=
  update_self ..

theorem registered_modified : Registered fd (modified fd w c e i) d ↔ Registered fd w d := Iff.rfl

theorem inv_modified (hw : Inv fd w) (hfd : Injective fd) (he : IsMask e)
    (hc : Registered fd w c) (hi : (w.channel c).index = i) : Inv fd (modified fd w c e i) where
  keyed := hw.keyed
  place d h := by
    rcases eq_or_ne d c with rfl | hd
    · obtain ⟨pfd, hpfd, -⟩ := hw.place_at hc hi
      have hlt := (List.getElem?_eq_some_iff.mp hpfd).1
      refine ⟨i, _, ?_, getElem?_set_self hlt, ?_, ?_⟩
      · rw [channel_modified_self, hi]
      · dsimp only
        split_ifs
        · exact Or.inr rfl
        · exact Or.inl rfl
      · rw [channel_modified_self]
    · obtain ⟨j, pfd, hj, hpfd, hrest⟩ := hw.place d h
      have hne : i ≠ j := by
        rintro rfl
        exact hw.index_ne hfd hc h hd (hj.trans hi.symm)
      rw [channel_modified_of_ne hd]
      exact ⟨j, pfd, hj, (getElem?_set_ne hne).trans hpfd, hrest⟩
  owner j pfd h := by
    have hlt : j < w.poller.pollfds.length := by
      have hlt := (List.getElem?_eq_some_iff.mp h).1
      rwa [modified, length_set] at hlt
    obtain ⟨d, hd, hindex⟩ := hw.owner j _ (getElem?_eq_getElem hlt)
    refine ⟨d, hd, ?_⟩
    rcases eq_or_ne d c with rfl | hne
    · rw [channel_modified_self, hindex]
    · rw [channel_modified_of_ne hne, hindex]
  isMask d := by
    rcases eq_or_ne d c with rfl | hd
    · rw [channel_modified_self]
      exact he
    · rw [channel_modified_of_ne hd]
      exact hw.isMask d

theorem view_modified (hw : Inv fd w) (hfd : Injective fd) (he : IsMask e)
    (hc : Registered fd w c) (hi : (w.channel c).index = i) :
    view fd (modified fd w c e i) = update (view fd w) c
      ⟨.poll, e, true, ⟨.kAdded, true, if e = 0 then none else some e⟩⟩ := by
  funext d
  rcases eq_or_ne d c with rfl | hd
  · obtain ⟨pfd, hpfd, -⟩ := hw.place_at hc hi
    have hasked : askedAt (modified fd w d e i) i = if e = 0 then none else some e := by
      rw [askedAt, Int.toNat_natCast, modified,
        List.getElem?_set_self (List.getElem?_eq_some_iff.mp hpfd).1, Option.bind_some, PollFd.mask,
        he.signExtend_setWidth]
      have hneg : -(fd d : ℤ) - 1 < 0 := by omega
      have hpos : ¬(fd d : ℤ) < 0 := by omega
      by_cases hzero : e = 0
      · rw [if_pos hzero, if_pos hzero, if_pos hneg]
      · rw [if_neg hzero, if_neg hzero, if_neg hpos]
    have hindex : ¬((modified fd w d e i).channel d).index < 0 := by
      rw [channel_modified_self]
      exact hw.index_nonneg hc
    rw [update_self, view_of_registered (registered_modified.mpr hc) hindex,
      channel_modified_self, hi, hasked]
  · rw [update_of_ne hd]
    refine view_congr (channel_modified_of_ne hd) registered_modified fun hreg ↦ ?_
    obtain ⟨j, pfd, hj, hpfd, -⟩ := hw.place d hreg
    have hne : i ≠ j := by
      rintro rfl
      exact hw.index_ne hfd hc hreg hd (hj.trans hi.symm)
    rw [hj, askedAt, askedAt, Int.toNat_natCast, modified, getElem?_set_ne hne]

end Modified

/-! ### A place given up -/

/-- The state after the channel at place `i` is removed. The last place, `last`, belonged to `d`,
which may be `c` itself. -/
def removed (fd : ι → ℕ) (w : PollWatch ι) (c d : ι) (i : ℕ) (last : PollFd) :
    PollWatch ι where
  channel := ((w.setRemoved c).setIndex d i).channel
  poller := ⟨update w.poller.channels (fd c) none, (w.poller.pollfds.set i last).dropLast⟩

/-- For a registered channel everything depends on whether its entry is an ignored one. -/
theorem removeChannel_eq (hc : Registered fd w c) (hevents : (w.channel c).events = 0) {i : ℕ}
    {pfd : PollFd} (hi : (w.channel c).index = i) (hpfd : w.poller.pollfds[i]? = some pfd) :
    removeChannel fd (w.setRemoved c) c =
      assert (pfd.fd = -fd c - 1 ∧ pfd.mask = 0) >>= fun _ ↦
        fillPlace ⟨(w.setRemoved c).channel,
          ⟨update w.poller.channels (fd c) none, w.poller.pollfds⟩⟩ i := by
  have hfields : (w.setRemoved c).channel c = ⟨0, i, false⟩ := by
    rw [setRemoved_self, hevents, hi]
  have hsome : (w.setRemoved c).poller.channels (fd c) = some c := hc
  have hne : (w.setRemoved c).poller.channels (fd c) ≠ none := by
    rw [hsome]
    exact Option.some_ne_none c
  have hbounds : 0 ≤ (i : ℤ) ∧ (i : ℤ) < (w.setRemoved c).poller.pollfds.length :=
    ⟨Int.natCast_nonneg i, by exact_mod_cast (List.getElem?_eq_some_iff.mp hpfd).1⟩
  have hplace : (w.setRemoved c).poller.pollfds[(i : ℤ).toNat]? = some pfd := by
    rw [Int.toNat_natCast]
    exact hpfd
  rw [removeChannel, assert_bind_of hne, assert_bind_of hsome, hfields,
    assert_bind_of rfl, assert_bind_of hbounds, hplace]
  rfl

/-- The last entry moves to the place of a registered channel, and its owner learns its new index.
-/
theorem fillPlace_of_registered (hw : Inv fd w) (hfd : Injective fd)
    (hc : Registered fd w c) {i : ℕ} (hi : (w.channel c).index = i)
    (hlt : i < w.poller.pollfds.length) :
    ∃ d last, Registered fd w d ∧ (w.channel d).index = (w.poller.pollfds.length - 1 : ℕ) ∧
      w.poller.pollfds[w.poller.pollfds.length - 1]? = some last ∧
      fillPlace ⟨(w.setRemoved c).channel,
        ⟨update w.poller.channels (fd c) none, w.poller.pollfds⟩⟩ i =
          .ok (removed fd w c d i last) := by
  -- the last place has an owner, because every place has one
  have hlast := getElem?_eq_getElem (Nat.sub_one_lt_of_lt hlt)
  obtain ⟨d, hd, hindex, hfdd⟩ := hw.owner_entry hlast
  refine ⟨d, _, hd, hindex, hlast, ?_⟩
  rw [fillPlace]
  by_cases hend : i = w.poller.pollfds.length - 1
  · have hdc : d = c := by
      by_contra hdc
      exact hw.index_ne hfd hc hd hdc (by rw [hindex, hi, hend])
    have hsame : w.poller.pollfds.set i w.poller.pollfds[w.poller.pollfds.length - 1] =
        w.poller.pollfds := by
      subst hend
      exact set_getElem_self _
    have hchannel : ((w.setRemoved c).setIndex c i).channel = (w.setRemoved c).channel := by
      funext x
      rcases eq_or_ne x c with rfl | hx
      · rw [setIndex_self, setRemoved_self, hi]
      · rw [setIndex_of_ne hx]
    rw [if_pos hend, removed, hdc, hsame, hchannel]
  · have hdc : d ≠ c := by
      rintro rfl
      rw [hi] at hindex
      exact hend (by exact_mod_cast hindex)
    have hgetLast : w.poller.pollfds.getLast? =
        some w.poller.pollfds[w.poller.pollfds.length - 1] := by
      rw [getLast?_eq_getElem?, hlast]
    have hkey : (if w.poller.pollfds[w.poller.pollfds.length - 1].fd < 0 then
        -w.poller.pollfds[w.poller.pollfds.length - 1].fd - 1
        else w.poller.pollfds[w.poller.pollfds.length - 1].fd) = fd d := by
      split_ifs <;> omega
    have howner : update w.poller.channels (fd c) none (fd d) = some d := by
      rw [update_of_ne (cast_fd_ne hfd hdc)]
      exact hd
    rw [if_neg hend]
    simp only [hgetLast, hkey, howner]
    rfl

theorem removeChannel_of_ignored (hw : Inv fd w) (hfd : Injective fd)
    (hc : Registered fd w c) (hevents : (w.channel c).events = 0) {i : ℕ} {pfd : PollFd}
    (hi : (w.channel c).index = i) (hpfd : w.poller.pollfds[i]? = some pfd)
    (hentry : pfd.fd = -fd c - 1 ∧ pfd.mask = 0) :
    ∃ d last, Registered fd w d ∧ (w.channel d).index = (w.poller.pollfds.length - 1 : ℕ) ∧
      w.poller.pollfds[w.poller.pollfds.length - 1]? = some last ∧
      removeChannel fd (w.setRemoved c) c = .ok (removed fd w c d i last) := by
  rw [removeChannel_eq hc hevents hi hpfd, assert_bind_of hentry]
  exact fillPlace_of_registered hw hfd hc hi (List.getElem?_eq_some_iff.mp hpfd).1

theorem getElem?_fill {l : List PollFd} {last : PollFd} {i : ℕ} (hi : i < l.length) (j : ℕ) :
    (l.set i last).dropLast[j]? =
      if j < l.length - 1 then if j = i then some last else l[j]? else none := by
  rw [getElem?_dropLast, length_set, getElem?_set]
  split_ifs <;> first | rfl | omega

theorem channel_removed_of_ne {i : ℕ} {last : PollFd} {x : ι} (hc : x ≠ c) (hd : x ≠ d) :
    (removed fd w c d i last).channel x = w.channel x := by
  rw [removed, setIndex_of_ne hd, setRemoved_of_ne hc]

theorem channel_removed_last {i : ℕ} {last : PollFd} (hdc : d ≠ c) :
    (removed fd w c d i last).channel d =
      ⟨(w.channel d).events, i, (w.channel d).addedToLoop⟩ := by
  rw [removed, setIndex_self, setRemoved_of_ne hdc]

/-- The situation in which the channel at place `i` is removed and `d` has the last place. -/
structure Removal (fd : ι → ℕ) (w : PollWatch ι) (c d : ι) (i : ℕ) (last : PollFd) :
    Prop where
  inv : Inv fd w
  injective : Injective fd
  registered : Registered fd w c
  index_eq : (w.channel c).index = i
  lt_length : i < w.poller.pollfds.length
  registered_last : Registered fd w d
  index_last : (w.channel d).index = (w.poller.pollfds.length - 1 : ℕ)
  getElem?_last : w.poller.pollfds[w.poller.pollfds.length - 1]? = some last

namespace Removal

variable {i : ℕ} {last : PollFd} {x : ι} (h : Removal fd w c d i last)

include h

theorem registered_iff : Registered fd (removed fd w c d i last) x ↔ x ≠ c ∧ Registered fd w x := by
  rcases eq_or_ne x c with rfl | hx
  · have hnone : (removed fd w x d i last).poller.channels (fd x) = none := update_self ..
    rw [Registered, hnone]
    constructor
    · intro hx
      cases hx
    · rintro ⟨hx, -⟩
      exact absurd rfl hx
  · rw [and_iff_right hx]
    exact iff_of_eq (congrArg (· = some x) (update_of_ne (cast_fd_ne h.injective hx) ..))

theorem channel_self : (removed fd w c d i last).channel c = ⟨(w.channel c).events, i, false⟩ := by
  rw [removed]
  rcases eq_or_ne c d with rfl | hcd
  · rw [setIndex_self, setRemoved_self]
  · rw [setIndex_of_ne hcd, setRemoved_self, h.index_eq]

omit [DecidableEq ι] in
theorem lt_of_ne (hdc : d ≠ c) : i < w.poller.pollfds.length - 1 := by
  have hne := h.inv.index_ne h.injective h.registered h.registered_last hdc
  have hlt := h.lt_length
  rw [h.index_last, h.index_eq] at hne
  omega

/-- Every other channel is found at its new place, with the entry it had. -/
theorem place (hx : Registered fd w x) (hc : x ≠ c) :
    ∃ (j k : ℕ) (pfd : PollFd), ((removed fd w c d i last).channel x).index = j ∧
      (removed fd w c d i last).poller.pollfds[j]? = some pfd ∧
      (w.channel x).index = k ∧ w.poller.pollfds[k]? = some pfd := by
  rcases eq_or_ne x d with rfl | hd
  · refine ⟨i, _, last, ?_, ?_, h.index_last, h.getElem?_last⟩
    · rw [channel_removed_last hc]
    · rw [removed, getElem?_fill h.lt_length, if_pos (h.lt_of_ne hc), if_pos rfl]
  · obtain ⟨j, pfd, hj, hpfd, -⟩ := h.inv.place x hx
    have hlt := (List.getElem?_eq_some_iff.mp hpfd).1
    have hi := h.inv.index_ne h.injective h.registered hx hc
    have hn := h.inv.index_ne h.injective h.registered_last hx hd
    rw [hj, h.index_eq] at hi
    rw [hj, h.index_last] at hn
    refine ⟨j, j, pfd, ?_, ?_, hj, hpfd⟩
    · rw [channel_removed_of_ne hc hd, hj]
    · rw [removed, getElem?_fill h.lt_length, if_pos (by omega), if_neg (by omega), hpfd]

theorem events_eq (x : ι) :
    ((removed fd w c d i last).channel x).events = (w.channel x).events := by
  rcases eq_or_ne x c with rfl | hc
  · rw [h.channel_self]
  · rcases eq_or_ne x d with rfl | hd
    · rw [channel_removed_last hc]
    · rw [channel_removed_of_ne hc hd]

theorem addedToLoop_eq (hc : x ≠ c) :
    ((removed fd w c d i last).channel x).addedToLoop = (w.channel x).addedToLoop := by
  rcases eq_or_ne x d with rfl | hd
  · rw [channel_removed_last hc]
  · rw [channel_removed_of_ne hc hd]

theorem inv_removed : Inv fd (removed fd w c d i last) where
  keyed f x hf := by
    rcases eq_or_ne f (fd c) with rfl | hne
    · have hnone : (removed fd w c d i last).poller.channels (fd c) = none :=
        update_self ..
      rw [hnone] at hf
      cases hf
    · exact h.inv.keyed f x ((update_of_ne hne ..).symm.trans hf)
  place x hx := by
    obtain ⟨hc, hx⟩ := h.registered_iff.mp hx
    obtain ⟨j, k, pfd, hj, hpfd, hk, hold⟩ := h.place hx hc
    obtain ⟨pfd', hold', hentry⟩ := h.inv.place_at hx hk
    rw [hold] at hold'
    cases hold'
    rw [h.events_eq]
    exact ⟨j, pfd, hj, hpfd, hentry⟩
  owner j pfd hj := by
    rw [removed, getElem?_fill h.lt_length] at hj
    split_ifs at hj with hlt hji
    · -- the entry that was moved to the place of the removed one
      have hdc : d ≠ c := by
        rintro rfl
        have hlast := h.index_last
        rw [h.index_eq] at hlast
        have hlast' : i = w.poller.pollfds.length - 1 := by exact_mod_cast hlast
        omega
      refine ⟨d, h.registered_iff.mpr ⟨hdc, h.registered_last⟩, ?_⟩
      rw [channel_removed_last hdc, hji]
    · obtain ⟨x, hx, hindex⟩ := h.inv.owner j pfd hj
      have hc : x ≠ c := by
        rintro rfl
        rw [h.index_eq] at hindex
        exact hji (by exact_mod_cast hindex.symm)
      have hd : x ≠ d := by
        rintro rfl
        rw [h.index_last] at hindex
        have hindex' : w.poller.pollfds.length - 1 = j := by exact_mod_cast hindex
        omega
      refine ⟨x, h.registered_iff.mpr ⟨hc, hx⟩, ?_⟩
      rw [channel_removed_of_ne hc hd, hindex]
  isMask x := by
    rw [h.events_eq]
    exact h.inv.isMask x

theorem view_removed (hevents : (w.channel c).events = 0) : view fd (removed fd w c d i last) =
    update (view fd w) c ⟨.poll, 0, false, ⟨.kAdded, false, none⟩⟩ := by
  funext x
  rcases eq_or_ne x c with rfl | hc
  · have hnot : ¬Registered fd (removed fd w x d i last) x :=
      fun hx ↦ (h.registered_iff.mp hx).1 rfl
    have hindex : ¬(i : ℤ) < 0 := by omega
    rw [update_self, view_of_not_registered hnot, h.channel_self, hevents, if_neg hindex]
  · rw [update_of_ne hc]
    by_cases hx : Registered fd w x
    · obtain ⟨j, k, pfd, hj, hpfd, hk, hold⟩ := h.place hx hc
      refine view_eq_of_asked (h.events_eq x) (h.addedToLoop_eq hc) ?_ ?_ fun _ ↦ ?_
      · rw [hj, hk]
        omega
      · rw [h.registered_iff, and_iff_right hc]
      · rw [hj, hk, askedAt, askedAt, Int.toNat_natCast, Int.toNat_natCast, hpfd, hold]
    · have hd : x ≠ d := fun hxd ↦ hx (hxd ▸ h.registered_last)
      refine view_congr (channel_removed_of_ne hc hd) ?_ fun hx' ↦ absurd hx' hx
      rw [h.registered_iff, and_iff_right hc]

end Removal

/-! ### Calls -/

theorem view_updateChannel (hw : Inv fd w) (hfd : Injective fd) (he : IsMask e) :
    (updateChannel fd (w.setEvents c e) c).map (view fd) =
        ((view fd w c).setEvents e).map (update (view fd w) c) ∧
      ∀ w', updateChannel fd (w.setEvents c e) c = .ok w' → Inv fd w' := by
  by_cases hc : Registered fd w c
  · obtain ⟨i, pfd, hi, -⟩ := hw.place c hc
    rw [updateChannel_of_registered hw hc hi, view_of_registered hc (hw.index_nonneg hc)]
    constructor
    · exact congrArg Except.ok (view_modified hw hfd he hc hi)
    · rintro w' ⟨⟩
      exact inv_modified hw hfd he hc hi
  · have hnone := hw.channels_eq_none hfd hc
    rw [view_of_not_registered hc]
    by_cases hindex : (w.channel c).index < 0
    · rw [updateChannel_of_index_neg hnone hindex, if_pos hindex]
      constructor
      · exact congrArg Except.ok (view_added hw hfd he)
      · rintro w' ⟨⟩
        exact inv_added hw hfd he hc
    · rw [updateChannel_of_stale hindex hnone, if_neg hindex]
      exact ⟨rfl, fun w' h ↦ by cases h⟩

theorem view_removeChannel (hw : Inv fd w) (hfd : Injective fd)
    (hevents : (w.channel c).events = 0) :
    (removeChannel fd (w.setRemoved c) c).map (view fd) =
        (view fd w c).remove.map (update (view fd w) c) ∧
      ∀ w', removeChannel fd (w.setRemoved c) c = .ok w' → Inv fd w' := by
  by_cases hc : Registered fd w c
  · obtain ⟨i, pfd, hi, hpfd, hfdc, hmask⟩ := hw.place c hc
    have hzero : pfd.mask = 0 := by
      rw [PollFd.mask, hmask, (hw.isMask c).signExtend_setWidth, hevents]
    have hasked : askedAt w (w.channel c).index = if pfd.fd < 0 then none else some pfd.mask := by
      rw [hi, askedAt, Int.toNat_natCast, hpfd, Option.bind_some]
    rw [view_of_registered hc (hw.index_nonneg hc), hasked, hevents]
    rcases hfdc with hwatched | hignored
    · have hentry : ¬(pfd.fd = -fd c - 1 ∧ pfd.mask = 0) := by omega
      rw [removeChannel_eq hc hevents hi hpfd, assert_bind_of_not hentry, if_neg (by omega)]
      exact ⟨rfl, fun w' h ↦ by cases h⟩
    · obtain ⟨d, last, hd, hindex, hlast, hok⟩ :=
        removeChannel_of_ignored hw hfd hc hevents hi hpfd ⟨hignored, hzero⟩
      have hneg : pfd.fd < 0 := by omega
      have hremoval : Removal fd w c d i last :=
        ⟨hw, hfd, hc, hi, (List.getElem?_eq_some_iff.mp hpfd).1, hd, hindex, hlast⟩
      rw [hok, if_pos hneg]
      constructor
      · exact congrArg Except.ok (hremoval.view_removed hevents)
      · rintro w' ⟨⟩
        exact hremoval.inv_removed
  · have hnone := hw.channels_eq_none hfd hc
    have hnone' : ¬(w.setRemoved c).poller.channels (fd c) ≠ none := not_not.mpr hnone
    rw [view_of_not_registered hc, hevents, removeChannel, assert_bind_of_not hnone']
    exact ⟨rfl, fun w' h ↦ by cases h⟩

theorem mem_asked_iff (hw : Inv fd w) (x : ℤ × EventMask) :
    x ∈ w.asked ↔ ∃ c, x.1 = fd c ∧ (view fd w c).registration.watched = some x.2 := by
  constructor
  · rintro ⟨pfd, hpfd, hpos, rfl⟩
    obtain ⟨i, hi⟩ := mem_iff_getElem?.mp hpfd
    obtain ⟨c, hc, hindex, hfdc⟩ := hw.owner_entry hi
    refine ⟨c, by omega, ?_⟩
    rw [view_of_registered hc (hw.index_nonneg hc), hindex, askedAt, Int.toNat_natCast, hi,
      Option.bind_some, if_neg (not_lt.mpr hpos)]
  · rintro ⟨c, hfdc, hwatched⟩
    by_cases hc : Registered fd w c
    · obtain ⟨i, pfd, hi, hpfd, hentry, -⟩ := hw.place c hc
      rw [view_of_registered hc (hw.index_nonneg hc), hi, askedAt, Int.toNat_natCast, hpfd,
        Option.bind_some] at hwatched
      split_ifs at hwatched with hneg
      refine ⟨pfd, mem_of_getElem? hpfd, not_lt.mp hneg, Prod.ext ?_ ?_⟩
      · omega
      · exact (Option.some.inj hwatched).symm
    · rw [view_of_not_registered hc] at hwatched
      cases hwatched

theorem refines (hfd : Injective fd) : Refines fd .poll (view fd) (Inv fd) where
  inv_new := inv_new
  view_new := funext view_new
  events_view _ _ := rfl
  isMask _ c hw := hw.isMask c
  updateChannel _ _ _ hw he := view_updateChannel hw hfd he
  removeChannel _ _ hw hevents := view_removeChannel hw hfd hevents
  mem_asked _ hw := mem_asked_iff hw

end PollPoller

end Fishnet
