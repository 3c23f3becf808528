import Fishnet.Base.TimeZone

/-!
# Local time and back

`toLocalTime` adds the offset of the era that the time is in. `fromLocalTime` has only the reading
of the clock, and looks for the era by it. A transition that puts the clock back makes some readings
occur twice. The search then finds the later era, and if the reading is marked as daylight saving
time the earlier one was meant.

## Where an hour is assumed

In that case `fromLocalTime` subtracts `3600` from the seconds, and the offset of the later era. The
result is the time that was meant if the clock went back by one hour. There are zones that change by
half an hour, and after such a change the round trip ends half an hour too early.

Otherwise the conversion is right. Two readings of one era differ as their times do. A reading that
belongs to an earlier era than the search finds lies behind a backward transition, which by
assumption ends daylight saving time, and the next transition is too far away to matter.

## Main results

* `TimeZone.localTime_round_trip_iff`: a zone whose transitions are in order and more than a day
  apart returns every time exactly if the clock only ever goes back by an hour.
-/

namespace Fishnet.TimeZone

open List

variable {libc : Libc} {data : Data}

namespace Data

/-- The type of the era `k`. -/
def Era (data : Data) (k : ℕ) (type : Localtime) : Prop :=
  k ≤ data.transitions.length ∧ data.localtimes[data.eraIndex k]? = some type

/-- What the constructors of `TimeZone` leave behind: each transition has a type, and the local time
that follows from it. -/
def Built (data : Data) : Prop :=
  ∀ tr ∈ data.transitions, ∃ type, data.localtimes[tr.localtimeidx]? = some type ∧
    tr.localtime = tr.gmttime + type.gmtOffset

/-- Transitions are in order on both clocks and more than a day apart, and one that moves the local
clock back ends daylight saving time. -/
structure Regular (data : Data) : Prop where
  gmt : Increasing Transition.gmttime data.transitions
  clock : Increasing Transition.localtime data.transitions
  apart : ∀ {k tr next}, data.transitions[k]? = some tr → data.transitions[k + 1]? = some next →
    tr.gmttime + 86400 < next.gmttime
  dst : ∀ {k before after}, data.Era k before → data.Era (k + 1) after →
    after.gmtOffset < before.gmtOffset → before.isDst = true ∧ after.isDst = false

/-- Every era has a type, with an abbreviation inside the text. -/
def Usable (data : Data) : Prop :=
  ∀ k ≤ data.transitions.length, ∃ type, data.Era k type ∧
    type.arrbIdx ≤ data.abbreviation.length

/-- The clock goes back by an hour or not at all. -/
def HourBack (data : Data) : Prop :=
  ∀ k before after, data.Era k before → data.Era (k + 1) after →
    after.gmtOffset < before.gmtOffset → before.gmtOffset = after.gmtOffset + 3600

end Data

/-- `fromLocalTime(toLocalTime(t))`. -/
def roundTrip (libc : Libc) (data : Data) (t : ℤ) : Checked ℤ := do
  let tm ← toLocalTime libc ⟨some data⟩ t
  fromLocalTime libc ⟨some data⟩ tm

/-- The local time in an era of the given type. -/
def localTm (libc : Libc) (data : Data) (t : ℤ) (type : Localtime) : Tm :=
  { libc.gmtime (t + type.gmtOffset) with
    tm_isdst := if type.isDst then 1 else 0
    tm_gmtoff := type.gmtOffset
    tm_zone := (data.abbreviation.drop type.arrbIdx).takeWhile (· ≠ 0) }

/-! ## Eras of a zone -/

section Eras

variable {k : ℕ} {tr : Transition} {type type' : Localtime}

theorem Data.Era.unique (h : data.Era k type) (h' : data.Era k type') : type = type' :=
  Option.some.inj (h.2.symm.trans h'.2)

theorem Data.Built.exists_era (h : data.Built) (htr : data.transitions[k]? = some tr) :
    ∃ type, data.Era (k + 1) type ∧ tr.localtime = tr.gmttime + type.gmtOffset := by
  obtain ⟨hk, -⟩ := List.getElem?_eq_some_iff.1 htr
  obtain ⟨type, htype, hlocal⟩ := h tr (mem_of_getElem? htr)
  refine ⟨type, ⟨hk, ?_⟩, hlocal⟩
  rw [Data.eraIndex, htr]
  exact htype

theorem Data.Built.localtime_eq (h : data.Built) (htr : data.transitions[k]? = some tr)
    (htype : data.Era (k + 1) type) : tr.localtime = tr.gmttime + type.gmtOffset := by
  obtain ⟨type', htype', hlocal⟩ := h.exists_era htr
  rw [hlocal, htype'.unique htype]

theorem Data.Era.localtimeAt (h : data.Era k type) :
    data.localtimeAt (data.eraIndex k) = .ok type := by
  rw [Data.localtimeAt, h.2]

end Eras

/-! ## The conversions in an era -/

section Conversions

variable {k k' : ℕ} {t : ℤ} {type type' : Localtime}

theorem toLocalTime_eq (libc : Libc) (hreg : data.Regular)
    (ht : InEra Transition.gmttime data.transitions t k)
    (htype : data.Era k type) (hindex : type.arrbIdx ≤ data.abbreviation.length) :
    toLocalTime libc ⟨some data⟩ t = .ok (localTm libc data t type) := by
  have hfind : findLocaltime data ⟨t, 0, 0⟩ ⟨true⟩ = .ok type := by
    rw [← htype.localtimeAt]
    exact findLocaltime_eq ⟨t, 0, 0⟩ ⟨true⟩ hreg.gmt ht
  simp only [toLocalTime, TimeZone.data, hfind, cString, if_pos hindex, ok_bind]
  rfl

/-- A successful conversion uses the type of the era. -/
theorem usable_of_toLocalTime {tm : Tm} (hreg : data.Regular)
    (ht : InEra Transition.gmttime data.transitions t k)
    (h : toLocalTime libc ⟨some data⟩ t = .ok tm) :
    ∃ type, data.Era k type ∧ type.arrbIdx ≤ data.abbreviation.length := by
  have hfind : findLocaltime data ⟨t, 0, 0⟩ ⟨true⟩ = data.localtimeAt (data.eraIndex k) :=
    findLocaltime_eq ⟨t, 0, 0⟩ ⟨true⟩ hreg.gmt ht
  simp only [toLocalTime, TimeZone.data, hfind, ok_bind] at h
  obtain ⟨type, htype, h⟩ := bind_eq_ok.1 h
  obtain ⟨zone, hzone, -⟩ := bind_eq_ok.1 h
  refine ⟨type, ⟨ht.le_length, ?_⟩, ?_⟩
  · unfold Data.localtimeAt at htype
    split at htype
    · next htype' =>
      rw [htype', Except.ok.inj htype]
    · cases htype
  · unfold cString at hzone
    split_ifs at hzone with hindex
    exact hindex

theorem timegm_localTm (t : ℤ) (type : Localtime) :
    libc.timegm (localTm libc data t type) = t + type.gmtOffset :=
  libc.timegm_gmtime _ _ _ _

/-- If the search finds the era of the time itself, the time is returned. -/
theorem roundTrip_same (hreg : data.Regular) (ht : InEra Transition.gmttime data.transitions t k)
    (htype : data.Era k type) (hindex : type.arrbIdx ≤ data.abbreviation.length)
    (hs : InEra Transition.localtime data.transitions (t + type.gmtOffset) k) :
    roundTrip libc data t = .ok t := by
  have hto := toLocalTime_eq libc hreg ht htype hindex
  have hfind : findLocaltime data ⟨0, t + type.gmtOffset, 0⟩ ⟨false⟩ = .ok type := by
    rw [← htype.localtimeAt]
    exact findLocaltime_eq ⟨0, t + type.gmtOffset, 0⟩ ⟨false⟩ hreg.clock hs
  have hback : t + type.gmtOffset - type.gmtOffset = t := by ring
  simp only [roundTrip, hto, ok_bind, fromLocalTime, TimeZone.data, timegm_localTm, hfind,
    hback]
  cases hdst : type.isDst <;> simp [localTm, hdst]

/-- If the search finds the next era after a change from daylight saving time, an hour is taken
off the reading. -/
theorem roundTrip_next {before after : Localtime} (hreg : data.Regular)
    (ht : InEra Transition.gmttime data.transitions t k)
    (hbefore : data.Era k before) (hindex : before.arrbIdx ≤ data.abbreviation.length)
    (hafter : data.Era (k + 1) after) (hindex' : after.arrbIdx ≤ data.abbreviation.length)
    (hdst : before.isDst = true) (hdst' : after.isDst = false)
    (hs : InEra Transition.localtime data.transitions (t + before.gmtOffset) (k + 1))
    (hlater : InEra Transition.gmttime data.transitions
      (t + before.gmtOffset - after.gmtOffset) (k + 1)) :
    roundTrip libc data t = .ok (t + before.gmtOffset - 3600 - after.gmtOffset) := by
  have hto := toLocalTime_eq libc hreg ht hbefore hindex
  have htry := toLocalTime_eq libc hreg hlater hafter hindex'
  have hfind : findLocaltime data ⟨0, t + before.gmtOffset, 0⟩ ⟨false⟩ = .ok after := by
    rw [← hafter.localtimeAt]
    exact findLocaltime_eq ⟨0, t + before.gmtOffset, 0⟩ ⟨false⟩ hreg.clock hs
  have hreading : t + before.gmtOffset - after.gmtOffset + after.gmtOffset =
      t + before.gmtOffset := by ring
  simp only [roundTrip, hto, ok_bind, fromLocalTime, TimeZone.data, timegm_localTm, hfind,
    htry]
  simp [localTm, hdst, hdst', hreading]

end Conversions

/-! ## Which era a reading falls into -/

section Readings

variable {k k' : ℕ} {t : ℤ} {type : Localtime}

/-- The era that the search finds has begun: it is not earlier than the era of the time. -/
theorem le_of_reading (hbuilt : data.Built) (ht : InEra Transition.gmttime data.transitions t k)
    (htype : data.Era k type)
    (hs : InEra Transition.localtime data.transitions (t + type.gmtOffset) k') : k ≤ k' := by
  cases k with
  | zero => exact Nat.zero_le _
  | succ k =>
    have htr := getElem?_eq_getElem (Nat.lt_of_succ_le ht.le_length)
    have hlocal := hbuilt.localtime_eq htr htype
    have hbegun := ht.begun htr (Nat.lt_succ_self k)
    by_contra hlt
    have hahead := hs.ahead htr (by omega)
    omega

/-- If it is later, the next transition moves the clock back over the reading. -/
theorem back_of_reading (hbuilt : data.Built)
    (ht : InEra Transition.gmttime data.transitions t k)
    (hs : InEra Transition.localtime data.transitions (t + type.gmtOffset) k') (hlt : k < k') :
    ∃ tr after, data.transitions[k]? = some tr ∧ data.Era (k + 1) after ∧
      after.gmtOffset < type.gmtOffset ∧ t < tr.gmttime ∧
      tr.gmttime + after.gmtOffset ≤ t + type.gmtOffset := by
  have htr := getElem?_eq_getElem (hlt.trans_le hs.le_length)
  obtain ⟨after, hafter, hlocal⟩ := hbuilt.exists_era htr
  have hahead := ht.ahead htr (le_refl k)
  have hbegun := hs.begun htr hlt
  exact ⟨_, after, htr, hafter, by omega, hahead, by omega⟩

end Readings

/-! ## The round trip -/

theorem roundTrip_eq (hbuilt : data.Built) (hreg : data.Regular) (husable : data.Usable)
    (hhour : data.HourBack) (t : ℤ) : roundTrip libc data t = .ok t := by
  obtain ⟨k, ht⟩ := exists_inEra hreg.gmt t
  obtain ⟨type, htype, hindex⟩ := husable k ht.le_length
  obtain ⟨k', hs⟩ := exists_inEra hreg.clock (t + type.gmtOffset)
  rcases (le_of_reading hbuilt ht htype hs).eq_or_lt with rfl | hlt
  · exact roundTrip_same hreg ht htype hindex hs
  · obtain ⟨tr, after, htr, hafter, hback, hahead, hreached⟩ :=
      back_of_reading hbuilt ht hs hlt
    obtain ⟨hdst, hdst'⟩ := hreg.dst htype hafter hback
    have hshift := hhour k type after htype hafter hback
    obtain ⟨after', hafter', hindex'⟩ := husable (k + 1) hafter.1
    obtain rfl := hafter.unique hafter'
    -- the transition after this one is a day away, and cannot move the clock back again
    obtain rfl : k' = k + 1 := by
      by_contra hne
      have hlt' : k + 1 < k' := by omega
      have hnext := getElem?_eq_getElem (hlt'.trans_le hs.le_length)
      obtain ⟨last, hlast, hlocal⟩ := hbuilt.exists_era hnext
      have hbegun := hs.begun hnext hlt'
      have hapart := hreg.apart htr hnext
      have hforward : ¬last.gmtOffset < after.gmtOffset := fun h ↦ by
        rw [(hreg.dst hafter hlast h).1] at hdst'
        cases hdst'
      omega
    have hlater : InEra Transition.gmttime data.transitions
        (t + type.gmtOffset - after.gmtOffset) (k + 1) := by
      refine (hreg.gmt.inEra htr).mono (by omega) (fun next hnext ↦ ?_) hreg.gmt
      have hapart := hreg.apart htr hnext
      omega
    rw [roundTrip_next hreg ht htype hindex hafter hindex' hdst hdst' hs hlater, hshift]
    congr 1
    ring

/-- The reading at the beginning of an era whose transition has put the clock back. -/
theorem roundTrip_back (libc : Libc) (hbuilt : data.Built) (hreg : data.Regular)
    (husable : data.Usable) {k : ℕ} {tr : Transition} {before after : Localtime}
    (htr : data.transitions[k]? = some tr) (hbefore : data.Era k before)
    (hafter : data.Era (k + 1) after) (hback : after.gmtOffset < before.gmtOffset) :
    roundTrip libc data (tr.gmttime - (before.gmtOffset - after.gmtOffset)) =
      .ok (tr.gmttime - 3600) := by
  obtain ⟨t, hteq⟩ : ∃ t, tr.gmttime - (before.gmtOffset - after.gmtOffset) = t := ⟨_, rfl⟩
  have hlocal := hbuilt.localtime_eq htr hafter
  obtain ⟨hdst, hdst'⟩ := hreg.dst hbefore hafter hback
  obtain ⟨before', hbefore', hindex⟩ := husable k hbefore.1
  obtain rfl := hbefore.unique hbefore'
  obtain ⟨after', hafter', hindex'⟩ := husable (k + 1) hafter.1
  obtain rfl := hafter.unique hafter'
  have hnext : ∀ next, data.transitions[k]? = some next → t < next.gmttime := by
    intro next hnext
    rw [htr, Option.some.injEq] at hnext
    rw [← hnext]
    omega
  have ht : InEra Transition.gmttime data.transitions t k := by
    cases k with
    | zero => exact hreg.gmt.inEra_zero hnext
    | succ k =>
      -- the clock has moved on since the transition before
      have hprevious := getElem?_eq_getElem (Nat.lt_of_succ_le hbefore.1)
      have hlocal' := hbuilt.localtime_eq hprevious hbefore
      have hclock := hreg.clock.lt hprevious htr (Nat.lt_succ_self k)
      exact (hreg.gmt.inEra hprevious).mono (by omega) hnext hreg.gmt
  have hs : InEra Transition.localtime data.transitions (t + before.gmtOffset) (k + 1) := by
    have hreading : t + before.gmtOffset = tr.localtime := by omega
    rw [hreading]
    exact hreg.clock.inEra htr
  have hlater : InEra Transition.gmttime data.transitions
      (t + before.gmtOffset - after.gmtOffset) (k + 1) := by
    have htime : t + before.gmtOffset - after.gmtOffset = tr.gmttime := by omega
    rw [htime]
    exact hreg.gmt.inEra htr
  rw [hteq, roundTrip_next hreg ht hbefore hindex hafter hindex' hdst hdst' hs hlater]
  congr 1
  omega

/-! ## A zone with one transition -/

/-- The end of daylight saving time at `g`, and nothing else. -/
def oneChange (g : ℤ) (summer winter : ℤ) (winterName : ℕ) (abbreviation : Bytes) : Data :=
  ⟨[⟨g, g + winter, 1⟩], [⟨summer, true, 0⟩, ⟨winter, false, winterName⟩], abbreviation⟩

section OneChange

variable {g summer winter : ℤ} {winterName : ℕ} {abbreviation : Bytes}

theorem era_oneChange {k : ℕ} {type : Localtime}
    (h : (oneChange g summer winter winterName abbreviation).Era k type) :
    k = 0 ∧ type = ⟨summer, true, 0⟩ ∨ k = 1 ∧ type = ⟨winter, false, winterName⟩ := by
  obtain ⟨hk, htype⟩ := h
  have hlength : k ≤ 1 := hk
  interval_cases k
  · exact Or.inl ⟨rfl, (Option.some.inj htype).symm⟩
  · exact Or.inr ⟨rfl, (Option.some.inj htype).symm⟩

theorem built_oneChange : (oneChange g summer winter winterName abbreviation).Built := by
  intro tr htr
  obtain rfl := mem_singleton.1 htr
  exact ⟨_, rfl, rfl⟩

theorem regular_oneChange : (oneChange g summer winter winterName abbreviation).Regular where
  gmt := pairwise_singleton _ _
  clock := pairwise_singleton _ _
  apart := by
    intro k tr next _ hnext
    rw [oneChange, getElem?_cons_succ, getElem?_nil] at hnext
    cases hnext
  dst := by
    intro k before after hbefore hafter _
    rcases era_oneChange hbefore with ⟨rfl, rfl⟩ | ⟨rfl, rfl⟩
    · rcases era_oneChange hafter with ⟨h, -⟩ | ⟨-, rfl⟩
      · cases h
      · exact ⟨rfl, rfl⟩
    · rcases era_oneChange hafter with ⟨h, -⟩ | ⟨h, -⟩
      · cases h
      · cases h

theorem usable_oneChange (h : winterName ≤ abbreviation.length) :
    (oneChange g summer winter winterName abbreviation).Usable := by
  intro k hk
  have hlength : k ≤ 1 := hk
  interval_cases k
  · exact ⟨⟨summer, true, 0⟩, ⟨hk, rfl⟩, Nat.zero_le _⟩
  · exact ⟨⟨winter, false, winterName⟩, ⟨hk, rfl⟩, h⟩

theorem hourBack_oneChange (h : summer = winter + 3600) :
    (oneChange g summer winter winterName abbreviation).HourBack := by
  intro k before after hbefore hafter hback
  rcases era_oneChange hbefore with ⟨rfl, rfl⟩ | ⟨rfl, rfl⟩
  · rcases era_oneChange hafter with ⟨hk, -⟩ | ⟨-, rfl⟩
    · cases hk
    · exact h
  · rcases era_oneChange hafter with ⟨hk, -⟩ | ⟨hk, -⟩
    · cases hk
    · cases hk

end OneChange

/-- Central Europe in October 2024. -/
def europe : Data := oneChange 1729990800 7200 3600 5 [67, 69, 83, 84, 0, 67, 69, 84, 0]

/-- Lord Howe Island in April 2024, where the clock goes back by half an hour. -/
def lordHowe : Data :=
  oneChange 1712415600 39600 37800 4 [43, 49, 49, 0, 43, 49, 48, 51, 48, 0]

/-! ## Main result -/

/-- **Local time round trip.** In a zone whose transitions are in order and more than a day apart,
and end daylight saving time when they put the clock back, every time is returned exactly if the
clock goes back by an hour each time, and there is a type with an abbreviation for every era. -/
theorem localTime_round_trip_iff (libc : Libc) {data : Data} (hbuilt : data.Built)
    (hreg : data.Regular) : (∀ t, roundTrip libc data t = .ok t) ↔ data.Usable ∧ data.HourBack := by
  constructor
  · intro h
    have husable : data.Usable := by
      intro k hk
      obtain ⟨t, ht⟩ := exists_time hreg.gmt hk
      obtain ⟨tm, htm, -⟩ := bind_eq_ok.1 (h t)
      exact usable_of_toLocalTime hreg ht htm
    refine ⟨husable, ?_⟩
    intro k before after hbefore hafter hback
    have htr := getElem?_eq_getElem (Nat.lt_of_succ_le hafter.1)
    have hreturned := roundTrip_back libc hbuilt hreg husable htr hbefore hafter hback
    rw [h, Except.ok.injEq] at hreturned
    omega
  · rintro ⟨husable, hhour⟩ t
    exact roundTrip_eq hbuilt hreg husable hhour t

theorem localTime_round_trip_europe : europe.Built ∧ europe.Regular ∧
    ∀ t, roundTrip Libc.posix europe t = .ok t :=
  ⟨built_oneChange, regular_oneChange,
    (localTime_round_trip_iff Libc.posix built_oneChange regular_oneChange).2
      ⟨usable_oneChange (by decide), hourBack_oneChange (by decide)⟩⟩

/-- The first reading that occurs twice comes back half an hour early. -/
theorem localTime_off_at_lordHowe : lordHowe.Built ∧ lordHowe.Regular ∧ lordHowe.Usable ∧
    roundTrip Libc.posix lordHowe 1712413800 = .ok 1712412000 :=
  ⟨built_oneChange, regular_oneChange, usable_oneChange (by decide), by decide +kernel⟩

end Fishnet.TimeZone
