import Fishnet.Net.PollPollerEntry

/-!
# `PollPoller` without assertions

With `NDEBUG` nothing checks the index of a channel. What remains of `updateChannel` and
`removeChannel` is modelled here: an access outside `pollfds_`, or through the null pointer that
`channels_[fd]` inserts, is the fault `badAccess`.

`removeChannel` leaves `index_` as it was. A channel that is updated again after its removal is
therefore taken for a registered one, and its old place is overwritten, which has another owner by
then or lies outside the array. As long as this does not happen, the array and the channels know
each other, as with assertions: the invariant `PollPoller.Inv` is the same.

## Active channels

`fillActiveChannels` walks over the array until it has seen as many entries as `poll` has reported.
It skips an entry unless `revents > 0`, and `revents` is a `short`: the highest bit must be clear.
What `poll` can report is therefore a parameter, `R`.

## Main results

* `PollPoller.Release.bijection_iff`: when the array, the map and the indices agree after every
  call, and the active channels are those that fired.
-/

namespace Fishnet

open Function List

namespace PollPoller

namespace Release

/-! ## The functions -/

section

variable {ι : Type} [DecidableEq ι] (fd : ι → ℕ)

/-- `updateChannel` for a channel that has no place in the array. -/
def addChannel (w : PollWatch ι) (c : ι) : PollWatch ι :=
  let pollfds := w.poller.pollfds ++ [⟨fd c, (w.channel c).events.setWidth 16⟩]
  let w := w.setIndex c (pollfds.length - 1)
  { w with poller := ⟨update w.poller.channels (fd c) (some c), pollfds⟩ }

/-- `updateChannel` for a channel that has one, or had one. -/
def modifyChannel (w : PollWatch ι) (c : ι) : Checked (PollWatch ι) :=
  let idx := (w.channel c).index
  match w.poller.pollfds[idx.toNat]? with
  | none => .error .badAccess
  | some _ =>
    let events := (w.channel c).events
    let pfd : PollFd := ⟨if events = 0 then -fd c - 1 else fd c, events.setWidth 16⟩
    .ok { w with poller := { w.poller with pollfds := w.poller.pollfds.set idx.toNat pfd } }

def updateChannel (w : PollWatch ι) (c : ι) : Checked (PollWatch ι) :=
  if (w.channel c).index < 0 then .ok (addChannel fd w c) else modifyChannel fd w c

def removeChannel (w : PollWatch ι) (c : ι) : Checked (PollWatch ι) :=
  let idx := (w.channel c).index
  if 0 ≤ idx ∧ idx < w.poller.pollfds.length then
    fillPlace { w with poller :=
      { w.poller with channels := update w.poller.channels (fd c) none } } idx.toNat
  else .error .badAccess

/-- The loop of `fillActiveChannels` over the entries and their `revents`. The result lists the
active channels with the value given to `setRevents`. -/
def fillActiveChannels (w : PollWatch ι) :
    ℤ → List (PollFd × BitVec 16) → Checked (List (ι × EventMask))
  | _, [] => .ok []
  | numEvents, (pfd, revents) :: rest =>
    if 0 < revents.toInt then
      match w.poller.channels pfd.fd with
      | none => .error .badAccess
      | some c =>
        if numEvents - 1 ≤ 0 then .ok [(c, revents.signExtend 32)]
        else (fillActiveChannels w (numEvents - 1) rest).map ((c, revents.signExtend 32) :: ·)
    else fillActiveChannels w numEvents rest

/-! ## Calls -/

/-- A call on the poller. The masks are those that `Channel` can set. -/
inductive Call (ι : Type) where
  | updateChannel (c : ι) (events : {e : EventMask // IsMask e})
  | removeChannel (c : ι)

def step (w : PollWatch ι) : Call ι → Checked (PollWatch ι)
  | .updateChannel c events => updateChannel fd (w.setEvents c events) c
  | .removeChannel c => removeChannel fd (w.setRemoved c) c

/-- A channel is removed only if it is registered and has no events. -/
def Permitted (w : PollWatch ι) : Call ι → Prop
  | .updateChannel _ _ => True
  | .removeChannel c => Registered fd w c ∧ (w.channel c).events = 0

/-- No channel is updated after it has been removed. -/
def NotStale (w : PollWatch ι) : Call ι → Prop
  | .updateChannel c _ => Registered fd w c ∨ (w.channel c).index < 0
  | .removeChannel _ => True

instance (w : PollWatch ι) (x : Call ι) : Decidable (Permitted fd w x) :=
  match x with
  | .updateChannel _ _ => inferInstanceAs (Decidable True)
  | .removeChannel _ => inferInstanceAs (Decidable (_ ∧ _))

instance (w : PollWatch ι) (x : Call ι) : Decidable (NotStale fd w x) :=
  match x with
  | .updateChannel _ _ => inferInstanceAs (Decidable (_ ∨ _))
  | .removeChannel _ => inferInstanceAs (Decidable True)

end

/-! ## What should hold -/

variable {ι : Type} (fd : ι → ℕ)

/-- The array, the map and the indices agree. -/
structure Bijection (w : PollWatch ι) : Prop where
  size : ∃ fds : Finset ℤ, (∀ f, f ∈ fds ↔ w.poller.channels f ≠ none) ∧
    fds.card = w.poller.pollfds.length
  place : ∀ c, Registered fd w c → ∃ (i : ℕ) (pfd : PollFd),
    (w.channel c).index = i ∧ w.poller.pollfds[i]? = some pfd ∧
      (pfd.fd = fd c ∨ pfd.fd = -fd c - 1) ∧ pfd.mask = (w.channel c).events
  index_ne : ∀ c d, Registered fd w c → Registered fd w d → c ≠ d →
    (w.channel c).index ≠ (w.channel d).index

/-- What `poll` can leave in the `revents` of the entries, if the values it reports are from `R`:
it ignores the entries with a negative descriptor. -/
structure PollResult (R : Set (BitVec 16)) (w : PollWatch ι)
    (revents : List (BitVec 16)) : Prop where
  length_eq : revents.length = w.poller.pollfds.length
  reported : ∀ x ∈ w.poller.pollfds.zip revents, x.2 ≠ 0 → 0 ≤ x.1.fd ∧ x.2 ∈ R

/-- The number of entries that have fired, which is what `poll` returns. -/
def numEvents (revents : List (BitVec 16)) : ℕ := revents.countP (· ≠ 0)

/-- The entry of the channel has fired with `revents`. -/
def Fired (w : PollWatch ι) (reported : List (BitVec 16)) (c : ι) (revents : BitVec 16) : Prop :=
  Registered fd w c ∧ ∃ i : ℕ, (w.channel c).index = i ∧ reported[i]? = some revents ∧ revents ≠ 0

/-- The active channels are those that have fired, each once and with its events. -/
def Delivers (w : PollWatch ι) (reported : List (BitVec 16)) : Prop :=
  ∃ active, fillActiveChannels w (numEvents reported) (w.poller.pollfds.zip reported) =
      .ok active ∧ (active.map Prod.fst).Nodup ∧
    ∀ c m, (c, m) ∈ active ↔ ∃ revents, Fired fd w reported c revents ∧ m = revents.signExtend 32

variable {fd} {w w' : PollWatch ι} {c d : ι} {e : EventMask}

/-! ## The invariant gives the bijection -/

/-- The descriptor of the owner of an entry. -/
def key (pfd : PollFd) : ℤ := if pfd.fd < 0 then -pfd.fd - 1 else pfd.fd

theorem key_eq {pfd : PollFd} (h : pfd.fd = fd c ∨ pfd.fd = -fd c - 1) : key pfd = fd c := by
  rw [key]
  split_ifs <;> omega

theorem nodup_keys (hw : Inv fd w) (hfd : Injective fd) : (w.poller.pollfds.map key).Nodup := by
  rw [List.Nodup, pairwise_map, pairwise_iff_getElem]
  intro i j hi hj hij heq
  obtain ⟨c, -, hc, hkey⟩ := hw.owner_entry (getElem?_eq_getElem hi)
  obtain ⟨d, -, hd, hkey'⟩ := hw.owner_entry (getElem?_eq_getElem hj)
  rw [key_eq hkey, key_eq hkey'] at heq
  obtain rfl : c = d := hfd (by exact_mod_cast heq)
  rw [hc] at hd
  have : i = j := by exact_mod_cast hd
  omega

theorem mem_keys_iff (hw : Inv fd w) (f : ℤ) :
    f ∈ w.poller.pollfds.map key ↔ w.poller.channels f ≠ none := by
  rw [mem_map]
  constructor
  · rintro ⟨pfd, hpfd, rfl⟩
    obtain ⟨i, hi⟩ := mem_iff_getElem?.mp hpfd
    obtain ⟨c, hc, -, hkey⟩ := hw.owner_entry hi
    rw [key_eq hkey, hc]
    exact Option.some_ne_none c
  · intro hne
    obtain ⟨c, hc⟩ := Option.ne_none_iff_exists'.mp hne
    obtain rfl := hw.keyed f c hc
    obtain ⟨i, pfd, -, hpfd, hkey, -⟩ := hw.place c hc
    exact ⟨pfd, mem_of_getElem? hpfd, key_eq hkey⟩

theorem bijection_of_inv (hw : Inv fd w) (hfd : Injective fd) : Bijection fd w where
  size := by
    refine ⟨(w.poller.pollfds.map key).toFinset, fun f ↦ ?_, ?_⟩
    · rw [mem_toFinset, mem_keys_iff hw]
    · rw [toFinset_card_of_nodup (nodup_keys hw hfd), length_map]
  place c hc := by
    obtain ⟨i, pfd, hi, hpfd, hkey, hevents⟩ := hw.place c hc
    refine ⟨i, pfd, hi, hpfd, hkey, ?_⟩
    rw [PollFd.mask, hevents, (hw.isMask c).signExtend_setWidth]
  index_ne c d hc hd hne := hw.index_ne hfd hd hc hne

/-! ## Delivery -/

/-- What an entry contributes to the active channels. -/
def activeOf (w : PollWatch ι) (x : PollFd × BitVec 16) : Option (ι × EventMask) :=
  if x.2 = 0 then none else (w.poller.channels x.1.fd).map (·, x.2.signExtend 32)

/-- The loop may stop early: once the count is used up, no later entry has fired. -/
theorem fillActiveChannels_eq {l : List (PollFd × BitVec 16)}
    (hl : ∀ x ∈ l, x.2 ≠ 0 → 0 < x.2.toInt ∧ w.poller.channels x.1.fd ≠ none) :
    fillActiveChannels w (l.countP (·.2 ≠ 0)) l = .ok (l.filterMap (activeOf w)) := by
  induction l with
  | nil => rfl
  | cons x rest ih =>
    obtain ⟨pfd, revents⟩ := x
    have hrest := fun y hy ↦ hl y (mem_cons_of_mem _ hy)
    rw [fillActiveChannels]
    by_cases hzero : revents = 0
    · have hnone : activeOf w (pfd, revents) = none := if_pos hzero
      have hcount : ((pfd, revents) :: rest).countP (·.2 ≠ 0) = rest.countP (·.2 ≠ 0) :=
        countP_cons_of_neg (by simp [hzero])
      have hnot : ¬0 < revents.toInt := by
        rw [hzero]
        decide
      rw [if_neg hnot, hcount, ih hrest, filterMap_cons_none hnone]
    · obtain ⟨hpos, hsome⟩ := hl (pfd, revents) mem_cons_self hzero
      obtain ⟨c, hc⟩ := Option.ne_none_iff_exists'.mp hsome
      have hactive : activeOf w (pfd, revents) = some (c, revents.signExtend 32) := by
        have hc' : w.poller.channels pfd.fd = some c := hc
        rw [activeOf, if_neg hzero, hc', Option.map_some]
      have hcount : ((pfd, revents) :: rest).countP (·.2 ≠ 0) = rest.countP (·.2 ≠ 0) + 1 :=
        countP_cons_of_pos (decide_eq_true hzero)
      have hpred : ((rest.countP (·.2 ≠ 0) + 1 : ℕ) : ℤ) - 1 = rest.countP (·.2 ≠ 0) := by
        push_cast
        omega
      rw [if_pos hpos, hcount, hpred, filterMap_cons_some hactive]
      simp only [hc]
      by_cases hlast : rest.countP (·.2 ≠ 0) = 0
      · have hnil : rest.filterMap (activeOf w) = [] := by
          rw [filterMap_eq_nil_iff]
          intro y hy
          have hy' := countP_eq_zero.mp hlast y hy
          exact if_pos (by simpa using hy')
        rw [if_pos (by omega), hnil]
      · rw [if_neg (by omega), ih hrest]
        rfl

variable {R : Set (BitVec 16)} {reported : List (BitVec 16)}

theorem mem_zip_iff {x : PollFd × BitVec 16} :
    x ∈ w.poller.pollfds.zip reported ↔
      ∃ i : ℕ, w.poller.pollfds[i]? = some x.1 ∧ reported[i]? = some x.2 := by
  rw [mem_iff_getElem?]
  exact exists_congr fun i ↦ getElem?_zip_eq_some

/-- An entry that has fired belongs to the channel found under its descriptor. -/
theorem owner_of_reported (hw : Inv fd w) (h : PollResult R w reported) {x : PollFd × BitVec 16}
    (hx : x ∈ w.poller.pollfds.zip reported) (hne : x.2 ≠ 0) :
    ∃ (c : ι) (i : ℕ), w.poller.channels x.1.fd = some c ∧ Registered fd w c ∧
      (w.channel c).index = i ∧ reported[i]? = some x.2 := by
  obtain ⟨i, hi, hr⟩ := mem_zip_iff.mp hx
  obtain ⟨c, hc, hindex, hkey⟩ := hw.owner_entry hi
  obtain ⟨hpos, -⟩ := h.reported x hx hne
  have hfdc : x.1.fd = fd c := by omega
  exact ⟨c, i, by rw [hfdc, hc], hc, hindex, hr⟩

theorem activeOf_eq_some {x : PollFd × BitVec 16} {m : EventMask} :
    activeOf w x = some (c, m) ↔
      x.2 ≠ 0 ∧ w.poller.channels x.1.fd = some c ∧ m = x.2.signExtend 32 := by
  rw [activeOf]
  split_ifs with h
  · exact iff_of_false nofun fun hx ↦ hx.1 h
  · rw [and_iff_right h, Option.map_eq_some_iff]
    constructor
    · rintro ⟨d, hd, heq⟩
      cases heq
      exact ⟨hd, rfl⟩
    · rintro ⟨hc, rfl⟩
      exact ⟨c, hc, rfl⟩

theorem mem_active_iff (hw : Inv fd w) (h : PollResult R w reported) (m : EventMask) :
    (c, m) ∈ (w.poller.pollfds.zip reported).filterMap (activeOf w) ↔
      ∃ revents, Fired fd w reported c revents ∧ m = revents.signExtend 32 := by
  rw [mem_filterMap]
  constructor
  · rintro ⟨x, hx, hactive⟩
    obtain ⟨hne, hc, rfl⟩ := activeOf_eq_some.mp hactive
    obtain ⟨d, i, hd, hreg, hi, hr⟩ := owner_of_reported hw h hx hne
    rw [hc] at hd
    cases hd
    exact ⟨x.2, ⟨hreg, i, hi, hr, hne⟩, rfl⟩
  · rintro ⟨revents, ⟨hreg, i, hi, hr, hne⟩, rfl⟩
    obtain ⟨j, pfd, hj, hpfd, hkey, -⟩ := hw.place c hreg
    obtain rfl : i = j := by
      rw [hi] at hj
      exact_mod_cast hj
    have hx : (pfd, revents) ∈ w.poller.pollfds.zip reported := mem_zip_iff.mpr ⟨i, hpfd, hr⟩
    have hpos : 0 ≤ pfd.fd := (h.reported _ hx hne).1
    have hfdc : pfd.fd = fd c := by omega
    refine ⟨(pfd, revents), hx, activeOf_eq_some.mpr ⟨hne, ?_, rfl⟩⟩
    rw [hfdc]
    exact hreg

theorem nodup_active (hw : Inv fd w) (hfd : Injective fd)
    (h : PollResult R w reported) :
    (((w.poller.pollfds.zip reported).filterMap (activeOf w)).map Prod.fst).Nodup := by
  have hkeys := nodup_keys hw hfd
  rw [← map_fst_zip h.length_eq.ge, map_map, List.Nodup, pairwise_map] at hkeys
  rw [List.Nodup, pairwise_map, pairwise_filterMap]
  refine hkeys.imp_of_mem fun {x y} hx hy hxy ↦ ?_
  rintro ⟨c, m⟩ hc ⟨d, m'⟩ hd rfl
  obtain ⟨hne, hc, -⟩ := activeOf_eq_some.mp hc
  obtain ⟨hne', hd, -⟩ := activeOf_eq_some.mp hd
  -- two entries of one channel would have one descriptor
  apply hxy
  have hx' : ¬x.1.fd < 0 := not_lt.mpr (h.reported x hx hne).1
  have hy' : ¬y.1.fd < 0 := not_lt.mpr (h.reported y hy hne').1
  change key x.1 = key y.1
  rw [key, key, if_neg hx', if_neg hy', hw.keyed _ _ hc, hw.keyed _ _ hd]

/-- The active channels are those that have fired, if no report has the sign bit. -/
theorem delivers_of_inv (hw : Inv fd w) (hfd : Injective fd)
    (h : PollResult R w reported) (hR : ∀ r ∈ R, 0 ≤ r.toInt) : Delivers fd w reported := by
  have hcount : (w.poller.pollfds.zip reported).countP (·.2 ≠ 0) = numEvents reported := by
    have hsnd := map_snd_zip h.length_eq.le
    rw [numEvents, ← congrArg (List.countP (· ≠ 0)) hsnd, countP_map]
    rfl
  refine ⟨_, ?_, nodup_active hw hfd h, fun c m ↦ mem_active_iff hw h m⟩
  rw [← hcount]
  apply fillActiveChannels_eq
  intro x hx hne
  obtain ⟨c, i, hc, -⟩ := owner_of_reported hw h hx hne
  have hnonneg := hR x.2 (h.reported x hx hne).2
  have hzero : x.2.toInt ≠ 0 := fun h0 ↦ hne (BitVec.eq_of_toInt_eq (by rw [h0]; rfl))
  refine ⟨by omega, ?_⟩
  rw [hc]
  exact Option.some_ne_none c

/-! ## Steps -/

variable [DecidableEq ι]

theorem updateChannel_of_index_neg (hindex : (w.channel c).index < 0) :
    updateChannel fd (w.setEvents c e) c = .ok (added fd w c e) := by
  have hfields : (w.setEvents c e).channel c = ⟨e, (w.channel c).index, true⟩ :=
    Watch.setEvents_self
  rw [updateChannel, hfields, if_pos hindex, addChannel, hfields]
  exact congrArg Except.ok (setIndex_eq_added (length_concat_sub_one _ _))

section

variable (hindex : ¬(w.channel c).index < 0)
include hindex

theorem updateChannel_of_not_neg :
    updateChannel fd (w.setEvents c e) c =
      match w.poller.pollfds[(w.channel c).index.toNat]? with
      | some _ => .ok (modified fd w c e (w.channel c).index.toNat)
      | none => .error .badAccess := by
  have hfields : (w.setEvents c e).channel c = ⟨e, (w.channel c).index, true⟩ :=
    Watch.setEvents_self
  have hpollfds : (w.setEvents c e).poller.pollfds = w.poller.pollfds := rfl
  rw [updateChannel, hfields, if_neg hindex, modifyChannel, hfields]
  simp only [hpollfds]
  cases w.poller.pollfds[(w.channel c).index.toNat]? <;> rfl

theorem updateChannel_of_index_nonneg {pfd : PollFd}
    (hpfd : w.poller.pollfds[(w.channel c).index.toNat]? = some pfd) :
    updateChannel fd (w.setEvents c e) c =
      .ok (modified fd w c e (w.channel c).index.toNat) := by
  rw [updateChannel_of_not_neg hindex, hpfd]

theorem updateChannel_of_outside (hnone : w.poller.pollfds[(w.channel c).index.toNat]? = none) :
    updateChannel fd (w.setEvents c e) c = .error .badAccess := by
  rw [updateChannel_of_not_neg hindex, hnone]

end

/-- A removal does not need the entry to be an ignored one. -/
theorem removeChannel_of_registered (hw : Inv fd w) (hfd : Injective fd)
    (hc : Registered fd w c) : ∃ w', removeChannel fd (w.setRemoved c) c = .ok w' ∧ Inv fd w' := by
  obtain ⟨i, pfd, hi, hpfd, -⟩ := hw.place c hc
  have hlt : i < w.poller.pollfds.length := (List.getElem?_eq_some_iff.mp hpfd).1
  obtain ⟨d, last, hd, hindex, hlast, hfill⟩ := fillPlace_of_registered hw hfd hc hi hlt
  have hremoval : Removal fd w c d i last := ⟨hw, hfd, hc, hi, hlt, hd, hindex, hlast⟩
  have hfields : ((w.setRemoved c).channel c).index = i := by
    rw [Watch.setRemoved_self, hi]
  have hbounds : 0 ≤ (i : ℤ) ∧ (i : ℤ) < (w.setRemoved c).poller.pollfds.length :=
    ⟨Int.natCast_nonneg i, by exact_mod_cast hlt⟩
  refine ⟨_, ?_, hremoval.inv_removed⟩
  rw [removeChannel, hfields, if_pos hbounds, Int.toNat_natCast]
  exact hfill

/-- One step, as long as no channel is updated after its removal. -/
theorem step_of_notStale (hw : Inv fd w) (hfd : Injective fd) {x : Call ι}
    (hx : Permitted fd w x) (hfresh : NotStale fd w x) :
    ∃ w', step fd w x = .ok w' ∧ Inv fd w' := by
  cases x with
  | updateChannel c events =>
    obtain ⟨e, he⟩ := events
    by_cases hindex : (w.channel c).index < 0
    · have hreg : ¬Registered fd w c := fun hreg ↦ hw.index_nonneg hreg hindex
      exact ⟨_, updateChannel_of_index_neg hindex, inv_added hw hfd he hreg⟩
    · have hreg : Registered fd w c := hfresh.resolve_right hindex
      obtain ⟨i, pfd, hi, hpfd, -⟩ := hw.place c hreg
      have hplace : w.poller.pollfds[(w.channel c).index.toNat]? = some pfd := by
        rw [hi, Int.toNat_natCast]
        exact hpfd
      refine ⟨_, updateChannel_of_index_nonneg hindex hplace, inv_modified hw hfd he hreg ?_⟩
      rw [hi, Int.toNat_natCast]
  | removeChannel c => exact removeChannel_of_registered hw hfd hx.1

/-- After an update through an old index, the owner of the place does not find its descriptor. -/
theorem not_bijection_modified (hw : Inv fd w) (hfd : Injective fd)
    (hc : ¬Registered fd w c) {i : ℕ} {pfd : PollFd} (hpfd : w.poller.pollfds[i]? = some pfd) :
    ¬Bijection fd (modified fd w c e i) := by
  intro hbijection
  obtain ⟨d, hd, hindex, -⟩ := hw.owner_entry hpfd
  have hne : d ≠ c := fun hdc ↦ hc (hdc ▸ hd)
  obtain ⟨j, pfd', hj, hpfd', hkey, -⟩ := hbijection.place d hd
  rw [channel_modified_of_ne hne, hindex] at hj
  obtain rfl : i = j := by exact_mod_cast hj
  have hset : (modified fd w c e i).poller.pollfds[i]? =
      some ⟨if e = 0 then -fd c - 1 else fd c, e.setWidth 16⟩ :=
    List.getElem?_set_self (List.getElem?_eq_some_iff.mp hpfd).1
  rw [hset] at hpfd'
  cases hpfd'
  have hcd := cast_fd_ne hfd hne
  dsimp only at hkey
  split_ifs at hkey <;> omega

theorem step_of_stale (hw : Inv fd w) (hfd : Injective fd) {x : Call ι}
    (hstale : ¬NotStale fd w x) :
    step fd w x = .error .badAccess ∨ ∃ w', step fd w x = .ok w' ∧ ¬Bijection fd w' := by
  cases x with
  | updateChannel c events =>
    obtain ⟨hreg, hindex⟩ := not_or.mp hstale
    cases hpfd : w.poller.pollfds[(w.channel c).index.toNat]? with
    | none => exact Or.inl (updateChannel_of_outside hindex hpfd)
    | some pfd =>
      exact Or.inr ⟨_, updateChannel_of_index_nonneg hindex hpfd,
        not_bijection_modified hw hfd hreg hpfd⟩
  | removeChannel c => exact absurd trivial hstale

/-- The first call of a permitted run is an update, and it adds an entry. -/
theorem step_new {x : Call ι} (hx : Permitted fd Watch.new x) :
    ∃ c e, step fd Watch.new x = .ok (added fd Watch.new c e) := by
  cases x with
  | updateChannel c events =>
    have hindex : ((Watch.new : PollWatch ι).channel c).index < 0 := neg_one_lt_zero
    exact ⟨c, events, updateChannel_of_index_neg hindex⟩
  | removeChannel c =>
    obtain ⟨hreg, -⟩ := hx
    cases hreg

theorem not_delivers_of_neg (hfd : Injective fd) {r : BitVec 16} (hr : r.toInt < 0) :
    ¬Delivers fd (added fd Watch.new c e) [r] := by
  rintro ⟨active, hactive, -, hmem⟩
  have hne : r ≠ 0 := by
    rintro rfl
    exact absurd hr (by decide)
  have hnil : active = [] := by
    have hskip : ¬0 < r.toInt := by omega
    change fillActiveChannels _ _ [(⟨fd c, e.setWidth 16⟩, r)] = _ at hactive
    rw [fillActiveChannels, if_neg hskip] at hactive
    exact (Except.ok.inj hactive).symm
  have hfired : Fired fd (added fd Watch.new c e) [r] c r := by
    refine ⟨(registered_added hfd).mpr (Or.inl rfl), 0, ?_, rfl, hne⟩
    rw [channel_added_self]
    rfl
  have hin := (hmem c (r.signExtend 32)).mpr ⟨r, hfired, rfl⟩
  rw [hnil] at hin
  cases hin

/-- The array, the map and the indices agree after every call exactly if no channel is updated after
its removal. -/
theorem bijection_along_iff (hfd : Injective fd) {xs : List (Call ι)}
    (hxs : Along (step fd) (Permitted fd) Watch.new xs) :
    (∀ pre, pre <+: xs → ∃ w, runAll (step fd) Watch.new pre = .ok w ∧ Bijection fd w) ↔
      Along (step fd) (NotStale fd) Watch.new xs := by
  have hiff : (∀ pre, pre <+: xs → (∀ w, runAll (step fd) Watch.new pre = .ok w → Bijection fd w) ∧
      ∀ e, runAll (step fd) Watch.new pre = .error e → ¬True) ↔
      Along (step fd) (NotStale fd) Watch.new xs := by
    refine along_iff_of_prefixes (fun w hw ↦ bijection_of_inv hw hfd) ?_ ?_ ?_ inv_new hxs
    · intro w x w' hw hx hfresh hstep
      obtain ⟨w'', hw'', hinv⟩ := step_of_notStale hw hfd hx hfresh
      rw [hstep] at hw''
      cases hw''
      exact hinv
    · intro w x e hw hx hfresh hstep
      obtain ⟨w'', hw'', -⟩ := step_of_notStale hw hfd hx hfresh
      rw [hstep] at hw''
      cases hw''
    · intro w x hw hx hstale
      rcases step_of_stale hw hfd hstale with hbad | hbroken
      · exact Or.inl ⟨_, hbad, trivial⟩
      · exact Or.inr hbroken
  rw [← hiff]
  refine forall₂_congr fun pre _ ↦ ?_
  cases hrun : runAll (step fd) Watch.new pre with
  | error e =>
    refine iff_of_false ?_ fun h ↦ h.2 e rfl trivial
    rintro ⟨w, hw, -⟩
    cases hw
  | ok w =>
    constructor
    · rintro ⟨w', hw', hbijection⟩
      cases hw'
      refine ⟨fun w' hw' ↦ ?_, fun e he ↦ ?_⟩
      · cases hw'
        exact hbijection
      · cases he
    · exact fun h ↦ ⟨w, rfl, h.1 w rfl⟩

theorem inv_of_run (hfd : Injective fd) {xs : List (Call ι)}
    (hxs : Along (step fd) (Permitted fd) Watch.new xs)
    (hfresh : Along (step fd) (NotStale fd) Watch.new xs)
    (hrun : runAll (step fd) Watch.new xs = .ok w) : Inv fd w := by
  have hboth := along_and hxs hfresh
  refine runAll_induct (P := fun w x ↦ Permitted fd w x ∧ NotStale fd w x) ?_ inv_new hboth hrun
  rintro w x w' hw ⟨hx, hfresh⟩ hstep
  obtain ⟨w'', hw'', hinv⟩ := step_of_notStale hw hfd hx hfresh
  rw [hstep] at hw''
  cases hw''
  exact hinv

/-- **The array, the map and the indices, without assertions.** Take any sequence of updates and
permitted removals, and let `R` be the values of `revents` that `poll` can report. After every call
the three agree and every result of `poll` is delivered, exactly if no channel is updated after its
removal and no value in `R` has the sign bit (the latter matters once there is an entry). -/
theorem bijection_iff (hfd : Injective fd) (R : Set (BitVec 16)) (xs : List (Call ι))
    (hxs : Along (step fd) (Permitted fd) Watch.new xs) :
    (∀ pre, pre <+: xs → ∃ w, runAll (step fd) Watch.new pre = .ok w ∧ Bijection fd w ∧
      ∀ reported, PollResult R w reported → Delivers fd w reported) ↔
    Along (step fd) (NotStale fd) Watch.new xs ∧ (xs ≠ [] → ∀ r ∈ R, 0 ≤ r.toInt) := by
  constructor
  · intro h
    refine ⟨(bijection_along_iff hfd hxs).mp fun pre hpre ↦ ?_, fun hne r hr ↦ ?_⟩
    · obtain ⟨w, hw, hbijection, -⟩ := h pre hpre
      exact ⟨w, hw, hbijection⟩
    · -- a report of the first entry added
      obtain ⟨x, rest, rfl⟩ := exists_cons_of_ne_nil hne
      obtain ⟨c, e, hstep⟩ := step_new hxs.1
      obtain ⟨w, hw, -, hdelivers⟩ := h [x] ⟨rest, rfl⟩
      rw [runAll, hstep] at hw
      cases hw
      by_contra hneg
      have hresult : PollResult R (added fd Watch.new c e) [r] := by
        refine ⟨rfl, fun y hy _ ↦ ?_⟩
        have hy' : y ∈ [((⟨fd c, e.setWidth 16⟩ : PollFd), r)] := hy
        rw [mem_singleton.mp hy']
        exact ⟨Int.natCast_nonneg _, hr⟩
      exact not_delivers_of_neg hfd (not_le.mp hneg) (hdelivers [r] hresult)
  · rintro ⟨hfresh, hR⟩ pre hpre
    obtain ⟨w, hw, hbijection⟩ := (bijection_along_iff hfd hxs).mpr hfresh pre hpre
    refine ⟨w, hw, hbijection, fun reported hreported ↦ ?_⟩
    obtain ⟨rest, rfl⟩ := hpre
    have hinv : Inv fd w := inv_of_run hfd (along_of_append hxs) (along_of_append hfresh) hw
    by_cases hne : pre = []
    · subst hne
      cases hw
      have hnil : reported = [] := eq_nil_of_length_eq_zero hreported.length_eq
      subst hnil
      refine ⟨[], rfl, nodup_nil, fun c m ↦ iff_of_false not_mem_nil ?_⟩
      rintro ⟨revents, ⟨hreg, -⟩, -⟩
      cases hreg
    · exact delivers_of_inv hinv hfd hreported (hR (by simp [hne]))

/-- The masks of the two examples below. -/
def readMask : {e : EventMask // IsMask e} := ⟨Channel.kReadEvent, Or.inr (Or.inl rfl)⟩

def noMask : {e : EventMask // IsMask e} := ⟨0, Or.inl rfl⟩

/-- A channel is removed while another one, disabled, has the last place, and `poll` may report
`POLLIN` and `POLLHUP`. -/
theorem bijection_iff_swap :
    Injective (fun c : Bool ↦ if c then 3 else 4) ∧
    ∀ pre, pre <+: [Call.updateChannel true readMask, .updateChannel false readMask,
        .updateChannel false noMask, .updateChannel true noMask, .removeChannel true] →
      ∃ w, runAll (step fun c : Bool ↦ if c then 3 else 4) Watch.new pre = .ok w ∧
        Bijection (fun c : Bool ↦ if c then 3 else 4) w ∧
        ∀ reported, PollResult {0x1, 0x10, 0x11} w reported →
          Delivers (fun c : Bool ↦ if c then 3 else 4) w reported := by
  have hfd : Injective (fun c : Bool ↦ if c then 3 else 4) := by decide
  refine ⟨hfd, (bijection_iff hfd {0x1, 0x10, 0x11} _ (by decide +kernel)).mpr
    ⟨by decide +kernel, fun _ r hr ↦ ?_⟩⟩
  rcases hr with rfl | rfl | rfl <;> decide

/-- A channel is removed, another one gets its place, and the first one is enabled again: the entry
of the second is overwritten. -/
theorem not_bijection_update_after_remove :
    Along (step fun c : Bool ↦ if c then 3 else 4) (Permitted fun c : Bool ↦ if c then 3 else 4)
        Watch.new [.updateChannel true readMask, .updateChannel true noMask, .removeChannel true,
          .updateChannel false readMask, .updateChannel true readMask] ∧
      ¬∃ w, runAll (step fun c : Bool ↦ if c then 3 else 4) Watch.new
          [.updateChannel true readMask, .updateChannel true noMask, .removeChannel true,
            .updateChannel false readMask, .updateChannel true readMask] = .ok w ∧
        Bijection (fun c : Bool ↦ if c then 3 else 4) w := by
  refine ⟨by decide +kernel, ?_⟩
  rintro ⟨w, hw, hbijection⟩
  have hseen : (runAll (step fun c : Bool ↦ if c then 3 else 4) Watch.new
      [.updateChannel true readMask, .updateChannel true noMask, .removeChannel true,
        .updateChannel false readMask, .updateChannel true readMask]).map
      (fun w ↦ (w.poller.channels 4, (w.channel false).index, w.poller.pollfds)) =
        .ok (some false, 0, [⟨3, 3⟩]) := by decide +kernel
  rw [hw] at hseen
  obtain ⟨hreg, hindex, hpollfds⟩ := by simpa using Except.ok.inj hseen
  obtain ⟨i, pfd, hi, hpfd, hkey, -⟩ := hbijection.place false hreg
  rw [hindex] at hi
  obtain rfl : 0 = i := by exact_mod_cast hi
  rw [hpollfds] at hpfd
  cases hpfd
  revert hkey
  decide

end Release

end PollPoller

end Fishnet
