import Fishnet.Library.LowerBound
import Fishnet.Base.UtcTime

/-!
# `TimeZone`: transitions and local types

The data of a zone are a list of local types and a list of transitions, each with the type that
applies from then on. A transition carries its time twice, in UTC and on the local clock that it
starts, and `findLocaltime` searches by the one or by the other. Before the first transition the
first type applies.

`std::lower_bound` is modelled with its loop, because nothing checks that the transitions of a file
are in order. On a list in order the search finds the *era* of a time, which is the number of
transitions that have begun.

## What is taken from the C library

`gmtime_r` and `timegm` are a pair of functions, of which it is known that the second undoes the
first whatever has been written to `tm_isdst`, `tm_gmtoff` and `tm_zone` in between. Times are
integers. `Libc.posix` is such a pair.

## Main results

* `TimeZone.findLocaltime_cases`: what the search returns, in order or not.
* `TimeZone.findLocaltime_linear`: on a list in order, it returns what a linear search returns.
-/

namespace Fishnet

open List

structure Transition where
  gmttime : ℤ
  localtime : ℤ
  localtimeidx : ℕ
  deriving DecidableEq, Repr

/-- `struct Comp`. -/
structure Comp where
  compareGmt : Bool

namespace Comp

/-- `operator()`. -/
def less (comp : Comp) (lhs rhs : Transition) : Bool :=
  if comp.compareGmt then lhs.gmttime < rhs.gmttime else lhs.localtime < rhs.localtime

def equal (comp : Comp) (lhs rhs : Transition) : Bool :=
  if comp.compareGmt then lhs.gmttime = rhs.gmttime else lhs.localtime = rhs.localtime

/-- The time that is compared. -/
def key (comp : Comp) (tr : Transition) : ℤ :=
  if comp.compareGmt then tr.gmttime else tr.localtime

variable {comp : Comp} {lhs rhs : Transition}

theorem less_iff : comp.less lhs rhs = true ↔ comp.key lhs < comp.key rhs := by
  unfold less key
  split_ifs <;> simp

theorem equal_iff : comp.equal lhs rhs = true ↔ comp.key lhs = comp.key rhs := by
  unfold equal key
  split_ifs <;> simp

end Comp

structure Localtime where
  gmtOffset : ℤ
  isDst : Bool
  arrbIdx : ℕ
  deriving DecidableEq, Repr

namespace TimeZone

/-- `struct Data`. -/
structure Data where
  transitions : List Transition
  localtimes : List Localtime
  abbreviation : Bytes
  deriving DecidableEq, Repr

/-- `&data.localtimes[i]`. -/
def Data.localtimeAt (data : Data) (i : ℕ) : Checked Localtime :=
  match data.localtimes[i]? with
  | some type => .ok type
  | none => .error .badAccess

/-- `data.transitions[i]`. -/
def Data.transitionAt (data : Data) (i : ℕ) : Checked Transition :=
  match data.transitions[i]? with
  | some tr => .ok tr
  | none => .error .badAccess

/-- The text that starts at `&s[i]`. A `std::string` may be indexed with its length, where its
terminating zero is. -/
def cString (s : Bytes) (i : ℕ) : Checked Bytes :=
  if i ≤ s.length then .ok ((s.drop i).takeWhile (· ≠ 0)) else .error .badAccess

/-- The rest of `findLocaltime` after `lower_bound`. -/
def localtimeFrom (data : Data) (sentry : Transition) (comp : Comp) (transI : ℕ) :
    Checked Localtime :=
  if transI ≠ data.transitions.length then do
    let tr ← data.transitionAt transI
    if ¬comp.equal sentry tr then do
      assert (transI ≠ 0)
      let tr ← data.transitionAt (transI - 1)
      data.localtimeAt tr.localtimeidx
    else data.localtimeAt tr.localtimeidx
  else do
    let back ← data.transitionAt (data.transitions.length - 1)
    data.localtimeAt back.localtimeidx

def findLocaltime (data : Data) (sentry : Transition) (comp : Comp) : Checked Localtime :=
  match data.transitions[0]? with
  | none => data.localtimeAt 0
  | some front =>
    if comp.less sentry front then data.localtimeAt 0
    else
      localtimeFrom data sentry comp
        (lowerBound (fun tr ↦ comp.less tr sentry) data.transitions)

/-- The last transition that has begun at the time `x`. -/
def lastBegun (key : Transition → ℤ) (x : ℤ) (trs : List Transition) : Option Transition :=
  (trs.filter fun tr ↦ key tr ≤ x).getLast?

/-- What `findLocaltime` is for, by linear search: the type of the last transition that has begun,
and `localtimes.front()` if there is none. -/
def linearSearch (data : Data) (sentry : Transition) (comp : Comp) : Option Localtime :=
  match lastBegun comp.key (comp.key sentry) data.transitions with
  | some tr => data.localtimes[tr.localtimeidx]?
  | none => data.localtimes.head?

/-! ## Eras -/

/-- At the time `x`, exactly the first `k` transitions have begun. -/
structure InEra (key : Transition → ℤ) (trs : List Transition) (x : ℤ) (k : ℕ) : Prop where
  le_length : k ≤ trs.length
  begun : ∀ {i tr}, trs[i]? = some tr → i < k → key tr ≤ x
  ahead : ∀ {i tr}, trs[i]? = some tr → k ≤ i → x < key tr

/-- The type that applies after `k` transitions. -/
def Data.eraIndex (data : Data) : ℕ → ℕ
  | 0 => 0
  | k + 1 => (data.transitions[k]?.map Transition.localtimeidx).getD 0

/-- The times are in order. -/
def Increasing (key : Transition → ℤ) (trs : List Transition) : Prop :=
  trs.Pairwise fun tr tr' ↦ key tr < key tr'

section Eras

variable {key : Transition → ℤ} {trs : List Transition} {x : ℤ} {k : ℕ} {tr tr' : Transition}

theorem Increasing.lt (h : Increasing key trs) {i j : ℕ} (htr : trs[i]? = some tr)
    (htr' : trs[j]? = some tr') (hij : i < j) : key tr < key tr' := by
  obtain ⟨hi, rfl⟩ := List.getElem?_eq_some_iff.1 htr
  obtain ⟨hj, rfl⟩ := List.getElem?_eq_some_iff.1 htr'
  exact pairwise_iff_getElem.1 h i j hi hj hij

theorem Increasing.inEra (h : Increasing key trs) (htr : trs[k]? = some tr) :
    InEra key trs (key tr) (k + 1) := by
  obtain ⟨hk, -⟩ := List.getElem?_eq_some_iff.1 htr
  refine ⟨hk, ?_, ?_⟩
  · intro i tr' htr' hi
    rcases Nat.lt_succ_iff_lt_or_eq.1 hi with hlt | rfl
    · exact (h.lt htr' htr hlt).le
    · rw [htr, Option.some.injEq] at htr'
      rw [htr']
  · intro i tr' htr' hi
    exact h.lt htr htr' hi

theorem Increasing.inEra_zero (h : Increasing key trs)
    (hfirst : ∀ first, trs[0]? = some first → x < key first) : InEra key trs x 0 := by
  refine ⟨Nat.zero_le _, nofun, ?_⟩
  intro i tr htr hi
  rcases hi.eq_or_lt with rfl | hlt
  · exact hfirst tr htr
  · have hlength : 0 < trs.length := hlt.trans (List.getElem?_eq_some_iff.1 htr).1
    have hzero := getElem?_eq_getElem hlength
    exact (hfirst _ hzero).trans (h.lt hzero htr hlt)

theorem InEra.mono {y : ℤ} (h : InEra key trs x k) (hxy : x ≤ y)
    (hnext : ∀ tr, trs[k]? = some tr → y < key tr) (hinc : Increasing key trs) :
    InEra key trs y k := by
  refine ⟨h.le_length, fun htr hi ↦ (h.begun htr hi).trans hxy, ?_⟩
  intro i tr htr hi
  have hk : k < trs.length := hi.trans_lt (List.getElem?_eq_some_iff.1 htr).1
  have hopen := hnext _ (getElem?_eq_getElem hk)
  rcases hi.eq_or_lt with rfl | hlt
  · exact hnext tr htr
  · exact hopen.trans (hinc.lt (getElem?_eq_getElem hk) htr hlt)

theorem exists_inEra (h : Increasing key trs) (x : ℤ) : ∃ k, InEra key trs x k := by
  induction trs with
  | nil => exact ⟨0, le_refl _, nofun, nofun⟩
  | cons first rest ih =>
    obtain ⟨-, hrest⟩ := pairwise_cons.1 h
    by_cases hx : x < key first
    · refine ⟨0, h.inEra_zero fun tr htr ↦ ?_⟩
      rw [getElem?_cons_zero, Option.some.injEq] at htr
      rwa [← htr]
    · obtain ⟨k, hk⟩ := ih hrest
      refine ⟨k + 1, Nat.succ_le_succ hk.le_length, ?_, ?_⟩
      · intro i tr htr hi
        cases i with
        | zero =>
          rw [getElem?_cons_zero, Option.some.injEq] at htr
          rw [← htr]
          exact not_lt.1 hx
        | succ i => exact hk.begun (i := i) htr (by omega)
      · intro i tr htr hi
        cases i with
        | zero => omega
        | succ i => exact hk.ahead (i := i) htr (by omega)

theorem exists_time (h : Increasing key trs) (hk : k ≤ trs.length) : ∃ t, InEra key trs t k := by
  cases k with
  | succ k => exact ⟨_, h.inEra (getElem?_eq_getElem hk)⟩
  | zero =>
    cases hfirst : trs[0]? with
    | none =>
      refine ⟨0, h.inEra_zero fun first h ↦ ?_⟩
      rw [hfirst] at h
      cases h
    | some first =>
      refine ⟨key first - 1, h.inEra_zero fun first' h ↦ ?_⟩
      rw [hfirst, Option.some.injEq] at h
      rw [← h]
      omega

/-- The transitions that have begun are those of the era, and no others. -/
theorem InEra.filter_begun (h : InEra key trs x k) :
    trs.filter (fun tr ↦ key tr ≤ x) = trs.take k := by
  have hbegun : ∀ tr ∈ trs.take k, key tr ≤ x := by
    intro tr htr
    obtain ⟨i, hi⟩ := mem_iff_getElem?.1 htr
    rw [getElem?_take] at hi
    split_ifs at hi with hlt
    exact h.begun hi hlt
  have hahead : ∀ tr ∈ trs.drop k, ¬key tr ≤ x := by
    intro tr htr
    obtain ⟨i, hi⟩ := mem_iff_getElem?.1 htr
    rw [getElem?_drop] at hi
    exact (h.ahead hi (Nat.le_add_right k i)).not_ge
  have hsplit := congrArg (List.filter fun tr ↦ key tr ≤ x) (take_append_drop k trs)
  rw [← hsplit, filter_append, filter_eq_self.2 (by simpa using hbegun),
    filter_eq_nil_iff.2 (by simpa using hahead), append_nil]

end Eras

section Search

variable {data : Data} {sentry : Transition} {comp : Comp} {k : ℕ}

theorem Data.transitionAt_eq {i : ℕ} {tr : Transition} (h : data.transitions[i]? = some tr) :
    data.transitionAt i = .ok tr := by
  rw [transitionAt, h]

/-- What the search returns. -/
inductive FindCase (data : Data) (sentry : Transition) (comp : Comp) :
    Checked Localtime → Prop
  | front (h : ∀ front, data.transitions[0]? = some front → comp.key sentry < comp.key front) :
    FindCase data sentry comp (data.localtimeAt 0)
  | found {i : ℕ} {tr : Transition} (htr : data.transitions[i]? = some tr)
    (hkey : comp.key tr = comp.key sentry ∨ comp.key tr < comp.key sentry ∧
      ∀ next, data.transitions[i + 1]? = some next → comp.key sentry < comp.key next) :
    FindCase data sentry comp (data.localtimeAt tr.localtimeidx)

/-- If the transition at a boundary does not have the key of the sentry, the one before it is the
one that is looked for. -/
theorem FindCase.previous {r : ℕ}
    (hb : Brackets (fun tr ↦ comp.less tr sentry) data.transitions r r) (hr : r ≠ 0)
    (hne : ∀ tr, data.transitions[r]? = some tr → comp.key tr ≠ comp.key sentry) :
    ∃ tr, data.transitions[r - 1]? = some tr ∧
      FindCase data sentry comp (data.localtimeAt tr.localtimeidx) := by
  have hlength := hb.le_length
  have hlt : r - 1 < data.transitions.length := by omega
  have htr := getElem?_eq_getElem hlt
  have hsucc : r - 1 + 1 = r := by omega
  refine ⟨_, htr, .found htr (Or.inr ⟨Comp.less_iff.1 (hb.before hsucc htr), ?_⟩)⟩
  intro next hnext
  rw [hsucc] at hnext
  have hge := hb.after hnext
  rw [← Bool.not_eq_true, Comp.less_iff, not_lt] at hge
  exact lt_of_le_of_ne hge (hne next hnext).symm

theorem localtimeFrom_cases {front : Transition} {r : ℕ}
    (hzero : data.transitions[0]? = some front) (hless : ¬comp.less sentry front = true)
    (hb : Brackets (fun tr ↦ comp.less tr sentry) data.transitions r r) :
    FindCase data sentry comp (localtimeFrom data sentry comp r) := by
  rw [Comp.less_iff, not_lt] at hless
  unfold localtimeFrom
  by_cases hend : r = data.transitions.length
  · rw [if_neg (not_not.2 hend)]
    have hr : r ≠ 0 := by
      rw [hend]
      exact (length_pos_of_mem (mem_of_getElem? hzero)).ne'
    obtain ⟨tr, htr, hcase⟩ := FindCase.previous hb hr fun tr htr ↦ by
      rw [hend, getElem?_length] at htr
      cases htr
    rw [← hend, Data.transitionAt_eq htr]
    exact hcase
  · rw [if_pos hend]
    have hlt : r < data.transitions.length := lt_of_le_of_ne hb.le_length hend
    have htr := getElem?_eq_getElem hlt
    rw [Data.transitionAt_eq htr, ok_bind]
    split_ifs with hequal
    · exact .found htr (Or.inl (Comp.equal_iff.1 hequal).symm)
    · rw [Comp.equal_iff] at hequal
      have hr : r ≠ 0 := by
        rintro rfl
        -- the first transition is neither before the sentry nor after it
        rw [hzero, Option.some.injEq] at htr
        have hge := hb.after hzero
        rw [← Bool.not_eq_true, Comp.less_iff, not_lt] at hge
        rw [← htr] at hequal
        exact hequal (le_antisymm hge hless)
      obtain ⟨tr, htr', hcase⟩ := FindCase.previous hb hr fun tr htr' ↦ by
        rw [htr, Option.some.injEq] at htr'
        rw [← htr']
        exact Ne.symm hequal
      rw [assert_bind_of hr, Data.transitionAt_eq htr']
      exact hcase

/-- The search ends at a transition and the assertion holds, whether the list is in order or not. -/
theorem findLocaltime_cases (data : Data) (sentry : Transition) (comp : Comp) :
    FindCase data sentry comp (findLocaltime data sentry comp) := by
  obtain ⟨first, hzero⟩ : ∃ first, data.transitions[0]? = first := ⟨_, rfl⟩
  unfold findLocaltime
  rw [hzero]
  cases first with
  | none =>
    refine .front fun front hfront ↦ ?_
    rw [hzero] at hfront
    cases hfront
  | some front =>
    simp only
    split_ifs with hless
    · refine .front fun front' hfront ↦ ?_
      rw [hzero, Option.some.injEq] at hfront
      rw [← hfront]
      exact Comp.less_iff.1 hless
    · exact localtimeFrom_cases hzero hless (lowerBound_brackets _ _)

/-- On a list in order, the search finds the type of the era. -/
theorem findLocaltime_eq (sentry : Transition) (comp : Comp)
    (hinc : Increasing comp.key data.transitions)
    (h : InEra comp.key data.transitions (comp.key sentry) k) :
    findLocaltime data sentry comp = data.localtimeAt (data.eraIndex k) := by
  have hcase := findLocaltime_cases data sentry comp
  generalize findLocaltime data sentry comp = result at hcase ⊢
  cases hcase with
  | front hfront =>
    obtain rfl : k = 0 := by
      by_contra hk
      have hlt : 0 < data.transitions.length := (Nat.pos_of_ne_zero hk).trans_le h.le_length
      have htr := getElem?_eq_getElem hlt
      exact (hfront _ htr).not_ge (h.begun htr (Nat.pos_of_ne_zero hk))
    rfl
  | @found i tr htr hkey =>
    obtain rfl : k = i + 1 := by
      refine le_antisymm ?_ ?_
      · by_contra hlt
        rw [not_le] at hlt
        have hnext := getElem?_eq_getElem (hlt.trans_le h.le_length)
        have hbegun := h.begun hnext hlt
        rcases hkey with heq | ⟨-, hahead⟩
        · exact (hinc.lt htr hnext (Nat.lt_succ_self i)).not_ge (hbegun.trans heq.ge)
        · exact (hahead _ hnext).not_ge hbegun
      · by_contra hlt
        have hahead := h.ahead htr (by omega)
        rcases hkey with heq | ⟨hlt', -⟩
        · exact hahead.ne' heq
        · exact hahead.not_gt hlt'
    rw [Data.eraIndex, htr]
    rfl

theorem linearSearch_eq (h : InEra comp.key data.transitions (comp.key sentry) k) :
    linearSearch data sentry comp = data.localtimes[data.eraIndex k]? := by
  rw [linearSearch, lastBegun, h.filter_begun]
  cases k with
  | zero => exact head?_eq_getElem?
  | succ k =>
    have htr := getElem?_eq_getElem h.le_length
    rw [getLast?_take, if_neg (Nat.succ_ne_zero k), Nat.add_sub_cancel, htr, Option.some_or,
      Data.eraIndex, htr]
    rfl

theorem Data.eraIndex_lt (hne : data.localtimes ≠ [])
    (hidx : ∀ tr ∈ data.transitions, tr.localtimeidx < data.localtimes.length)
    (hk : k ≤ data.transitions.length) : data.eraIndex k < data.localtimes.length := by
  cases k with
  | zero => exact length_pos_of_ne_nil hne
  | succ k =>
    rw [eraIndex, getElem?_eq_getElem hk]
    exact hidx _ (getElem_mem hk)

/-- **Binary and linear search agree.** If there is a type, the transitions are in order by the key
that is compared and each has a type, then `findLocaltime` runs through, past its assertion, and
returns the type of the last transition whose key is not above that of the sentry, or the first type
if there is none. -/
theorem findLocaltime_linear (data : Data) (sentry : Transition) (comp : Comp)
    (hne : data.localtimes ≠ []) (hinc : Increasing comp.key data.transitions)
    (hidx : ∀ tr ∈ data.transitions, tr.localtimeidx < data.localtimes.length) :
    ∃ type, findLocaltime data sentry comp = .ok type ∧
      linearSearch data sentry comp = some type := by
  obtain ⟨k, hera⟩ := exists_inEra hinc (comp.key sentry)
  have htype := getElem?_eq_getElem (Data.eraIndex_lt hne hidx hera.le_length)
  refine ⟨_, ?_, (linearSearch_eq hera).trans htype⟩
  rw [findLocaltime_eq sentry comp hinc hera, Data.localtimeAt, htype]

/-- Summer from 10 on, and winter again from 30 on. -/
def oneSummer : Data where
  transitions := [⟨10, 20, 1⟩, ⟨30, 35, 0⟩]
  localtimes := [⟨5, false, 0⟩, ⟨10, true, 0⟩]
  abbreviation := []

/-- A time in summer, the first one by the local clock, and the last one before it. -/
theorem findLocaltime_linear_oneSummer :
    (∃ type, findLocaltime oneSummer ⟨29, 0, 0⟩ ⟨true⟩ = .ok type ∧
      linearSearch oneSummer ⟨29, 0, 0⟩ ⟨true⟩ = some type) ∧
    findLocaltime oneSummer ⟨29, 0, 0⟩ ⟨true⟩ = .ok ⟨10, true, 0⟩ ∧
    findLocaltime oneSummer ⟨0, 20, 0⟩ ⟨false⟩ = .ok ⟨10, true, 0⟩ ∧
    findLocaltime oneSummer ⟨0, 19, 0⟩ ⟨false⟩ = .ok ⟨5, false, 0⟩ := by
  refine ⟨findLocaltime_linear oneSummer ⟨29, 0, 0⟩ ⟨true⟩ ?_ ?_ ?_, rfl, rfl, rfl⟩
  · decide
  · simp [Increasing, oneSummer, Comp.key]
  · decide

end Search

end TimeZone

/-- `class TimeZone`. -/
structure TimeZone where
  data_ : Option TimeZone.Data
  deriving DecidableEq, Repr

/-- `gmtime_r` and `timegm`. -/
structure Libc where
  gmtime : ℤ → Tm
  timegm : Tm → ℤ
  /-- They are inverse to each other. -/
  timegm_gmtime : ∀ (seconds tm_isdst tm_gmtoff : ℤ) (tm_zone : Bytes),
    timegm { gmtime seconds with tm_isdst, tm_gmtoff, tm_zone } = seconds

/-- Conversion by the Gregorian calendar. -/
def Libc.posix : Libc where
  gmtime seconds := TimeZone.utcOf seconds true
  timegm t := (t.date.dayNumber - 2440588) * 86400 +
    (t.tm_hour * 3600 + t.tm_min * 60 + t.tm_sec)
  timegm_gmtime seconds _ _ _ := TimeZone.seconds_utcOf seconds true

namespace TimeZone

def valid (tz : TimeZone) : Bool := tz.data_.isSome

/-- `assert(data_ != NULL); const Data& data(*data_);`. -/
def data (tz : TimeZone) : Checked Data :=
  match tz.data_ with
  | some data => .ok data
  | none => .error .assertion

/-- `TimeZone(int eastOfUtc, const char* name)`. -/
def ofOffset (eastOfUtc : ℤ) (name : Bytes) : TimeZone :=
  ⟨some ⟨[], [⟨eastOfUtc, false, 0⟩], name⟩⟩

section Local

variable (libc : Libc)

def toLocalTime (tz : TimeZone) (seconds : ℤ) : Checked Tm := do
  let data ← tz.data
  let type ← findLocaltime data ⟨seconds, 0, 0⟩ ⟨true⟩
  let tm_zone ← cString data.abbreviation type.arrbIdx
  let localSeconds := seconds + type.gmtOffset
  return { libc.gmtime localSeconds with
    tm_isdst := if type.isDst then 1 else 0
    tm_gmtoff := type.gmtOffset
    tm_zone }

def fromLocalTime (tz : TimeZone) (localTm : Tm) : Checked ℤ := do
  let data ← tz.data
  let seconds := libc.timegm localTm
  let type ← findLocaltime data ⟨0, seconds, 0⟩ ⟨false⟩
  if localTm.tm_isdst ≠ 0 then
    let tryTm ← tz.toLocalTime libc (seconds - type.gmtOffset)
    if tryTm.tm_isdst = 0 ∧ tryTm.tm_hour = localTm.tm_hour ∧ tryTm.tm_min = localTm.tm_min then
      return seconds - 3600 - type.gmtOffset
    else
      return seconds - type.gmtOffset
  else
    return seconds - type.gmtOffset

end Local

end TimeZone

end Fishnet
