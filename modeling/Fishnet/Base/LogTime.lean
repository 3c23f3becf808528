import Fishnet.Base.TimeZone
import Fishnet.Library.Printf

/-!
# The time of a log line

A log line starts with its date and time. `formatTime` keeps the text of the last second in a
thread-local array and formats it again only when the second changes. What is cached is the second;
the zone, which `setTimeZone` can change at any time, is not. At the start the array is empty and
the second is zero.

The model is one thread that logs, with the calls of `setTimeZone` in between. Its output is
compared with that of a logger without a cache.

## When the two agree

`StaysFresh` goes through the events with the second and the zone of the last text. The first event
must not be in second zero, and an event in the second of the cached text needs a zone in which that
second reads the same. Separately, the remainder of a time before 1970 is negative, and one with six
digits and a sign is too long.
-/

namespace Fishnet

namespace Tm

/-- The fields that are printed with two digits have two. -/
structure TwoDigits (tm : Tm) : Prop where
  mon : 0 ≤ tm.tm_mon + 1 ∧ tm.tm_mon + 1 < 100
  mday : 0 ≤ tm.tm_mday ∧ tm.tm_mday < 100
  hour : 0 ≤ tm.tm_hour ∧ tm.tm_hour < 100
  min : 0 ≤ tm.tm_min ∧ tm.tm_min < 100
  sec : 0 ≤ tm.tm_sec ∧ tm.tm_sec < 100

end Tm

/-- The time functions of the C library, with fields in their ranges. -/
structure TimeLibc extends Libc where
  twoDigits : ∀ seconds, (gmtime seconds).TwoDigits

/-- Conversion by the Gregorian calendar. -/
def TimeLibc.posix : TimeLibc where
  toLibc := Libc.posix
  twoDigits seconds := by
    obtain ⟨hsec, hmin, hhour, hmon0, hmon1, hday0, hday1⟩ := TimeZone.utcOf_fields seconds true
    have hday31 := hday1.trans (daysInMonth_le _ _)
    simp only [Tm.date] at hmon0 hmon1 hday0 hday31
    refine ⟨⟨?_, ?_⟩, ⟨?_, ?_⟩, ⟨hhour.1, ?_⟩, ⟨hmin.1, ?_⟩, hsec.1, ?_⟩ <;>
      simp only [Libc.posix] <;> omega

/-! ## The model -/

/-- The variables `formatTime` reads and writes. -/
structure LogTime where
  /-- `g_logTimeZone`. -/
  logTimeZone : TimeZone
  /-- `t_time`, up to its terminator. -/
  time : List Char
  /-- `t_lastSecond`. -/
  lastSecond : ℤ

namespace LogTime

/-- The variables before the first event. -/
def new : LogTime := ⟨⟨none⟩, [], 0⟩

/-- `kMicroSecondsPerSecond`. -/
def kMicroSecondsPerSecond : ℤ := 1000 * 1000

/-- The second of a time in microseconds. -/
def secondsOf (micros : ℤ) : ℤ := micros.tdiv kMicroSecondsPerSecond

/-- The microseconds within the second. -/
def microsecondsOf (micros : ℤ) : ℤ := micros.tmod kMicroSecondsPerSecond

/-- `snprintf(..., "%4d%02d%02d %02d:%02d:%02d", ...)`. -/
def printDateTime (tm : Tm) : List Char :=
  printWidth 4 (tm.tm_year + 1900) ++ printZeros 2 (tm.tm_mon + 1) ++ printZeros 2 tm.tm_mday ++
    ' ' :: (printZeros 2 tm.tm_hour ++ ':' :: (printZeros 2 tm.tm_min ++
      ':' :: printZeros 2 tm.tm_sec))

/-- The constructor of `T`. -/
def checkedText (str : List Char) (len : ℕ) : Checked (List Char) := do
  assert (str.length = len)
  .ok str

/-- The constructor of `Fmt`. -/
def fmt (text : List Char) : Checked (List Char) := do
  assert (text.length < 32)
  .ok text

section Format

variable (libc : TimeLibc)

/-- The broken-down time of a second, in UTC if the zone is not valid. -/
def brokenDown (tz : TimeZone) (seconds : ℤ) : Checked Tm :=
  if tz.valid then tz.toLocalTime libc.toLibc seconds else .ok (libc.gmtime seconds)

/-- The first half of `formatTime`: the cached text. -/
def refresh (s : LogTime) (seconds : ℤ) : Checked LogTime :=
  if seconds ≠ s.lastSecond then do
    let tm ← brokenDown libc s.logTimeZone seconds
    assert ((printDateTime tm).length = 17)
    .ok { s with lastSecond := seconds, time := (printDateTime tm).take 63 }
  else .ok s

/-- The second half: the cached text and the microseconds, whose text must have a given length. -/
def writeTime (s : LogTime) (text : List Char) (len : ℕ) : Checked (LogTime × List Char) := do
  let us ← fmt text
  assert (us.length = len)
  let time ← checkedText s.time 17
  let us ← checkedText us len
  .ok (s, time ++ us)

/-- `formatTime`: the variables afterwards, and what is written to the stream. -/
def formatTime (s : LogTime) (micros : ℤ) : Checked (LogTime × List Char) := do
  let s ← refresh libc s (secondsOf micros)
  if s.logTimeZone.valid then
    writeTime s ('.' :: (printZeros 6 (microsecondsOf micros) ++ [' '])) 8
  else
    writeTime s ('.' :: (printZeros 6 (microsecondsOf micros) ++ ['Z', ' '])) 9

/-- What the thread does. -/
inductive Event where
  | log (micros : ℤ)
  | setTimeZone (tz : TimeZone)

/-- The texts that the events write. -/
def emit : LogTime → List Event → Checked (List (List Char))
  | _, [] => .ok []
  | s, .setTimeZone tz :: events => emit { s with logTimeZone := tz } events
  | s, .log micros :: events => do
    let (s, text) ← formatTime libc s micros
    let texts ← emit s events
    .ok (text :: texts)

/-! ## The specification -/

/-- The date and time of a second, formatted from scratch. -/
def dateTime (tz : TimeZone) (seconds : ℤ) : List Char :=
  match brokenDown libc tz seconds with
  | .ok tm => printDateTime tm
  | .error _ => []

/-- The microseconds, with a `Z` for UTC. -/
def fractionText (tz : TimeZone) (micros : ℤ) : List Char :=
  '.' :: (printZeros 6 (microsecondsOf micros) ++ if tz.valid then [' '] else ['Z', ' '])

/-- What a logger without a cache writes. -/
def expected : TimeZone → List Event → List (List Char)
  | _, [] => []
  | _, .setTimeZone tz :: events => expected tz events
  | tz, .log micros :: events =>
    (dateTime libc tz (secondsOf micros) ++ fractionText tz micros) :: expected tz events

/-- Every event has a time in the zone that is set, in the years from 0 to 9999. -/
def InYears : TimeZone → List Event → Prop
  | _, [] => True
  | _, .setTimeZone tz :: events => InYears tz events
  | tz, .log micros :: events =>
    (∃ tm, brokenDown libc tz (secondsOf micros) = .ok tm ∧
      0 ≤ tm.tm_year + 1900 ∧ tm.tm_year + 1900 ≤ 9999) ∧ InYears tz events

/-- The second and the zone of the text in the cache. -/
abbrev Cached := Option (ℤ × TimeZone)

/-- `t_lastSecond`. -/
def Cached.second : Cached → ℤ
  | none => 0
  | some (seconds, _) => seconds

/-- The cache after an event. -/
def Cached.after (c : Cached) (tz : TimeZone) (seconds : ℤ) : Cached :=
  if seconds ≠ c.second then some (seconds, tz) else c

/-- The cache has the text that a second has in a zone, or does not say that it has. -/
def Cached.Usable (c : Cached) (tz : TimeZone) (seconds : ℤ) : Prop :=
  match c with
  | none => seconds ≠ 0
  | some (seconds', tz') =>
    seconds = seconds' → dateTime libc tz' seconds = dateTime libc tz seconds

/-- The cache can be used at every event, and no remainder is too long. -/
def StaysFresh : TimeZone → Cached → List Event → Prop
  | _, _, [] => True
  | _, c, .setTimeZone tz :: events => StaysFresh tz c events
  | tz, c, .log micros :: events =>
    c.Usable libc tz (secondsOf micros) ∧ -100000 < microsecondsOf micros ∧
      StaysFresh tz (c.after tz (secondsOf micros)) events

end Format

/-! ## One event -/

section Event

variable {libc : TimeLibc} {tz : TimeZone} {seconds : ℤ} {s : LogTime} {c : Cached}

theorem twoDigits_of_brokenDown {tm : Tm} (h : brokenDown libc tz seconds = .ok tm) :
    tm.TwoDigits := by
  unfold brokenDown at h
  split_ifs at h with hvalid
  · obtain ⟨data, -, h⟩ := bind_eq_ok.1 h
    obtain ⟨type, -, h⟩ := bind_eq_ok.1 h
    obtain ⟨name, -, h⟩ := bind_eq_ok.1 h
    rw [pure_eq_ok] at h
    obtain ⟨hmon, hmday, hhour, hmin, hsec⟩ := libc.twoDigits (seconds + type.gmtOffset)
    rw [← h]
    exact ⟨hmon, hmday, hhour, hmin, hsec⟩
  · rw [← Except.ok.inj h]
    exact libc.twoDigits seconds

/-- **The length of a date and time.** -/
theorem length_printDateTime {tm : Tm} (h : tm.TwoDigits) (h0 : 0 ≤ tm.tm_year + 1900)
    (h1 : tm.tm_year + 1900 ≤ 9999) : (printDateTime tm).length = 17 := by
  have htwo : ∀ {v : ℤ}, 0 ≤ v ∧ v < 100 → (printZeros 2 v).length = 2 := fun hv ↦
    (length_printZeros_eq_iff (by norm_num)).2 (by norm_num; omega)
  have hyear := length_printWidth (w := 4) (by norm_num) h0 (by norm_num; omega)
  simp only [printDateTime, List.length_append, List.length_cons, hyear, htwo h.mon, htwo h.mday,
    htwo h.hour, htwo h.min, htwo h.sec]

theorem dateTime_eq {tm : Tm} (h : brokenDown libc tz seconds = .ok tm) :
    dateTime libc tz seconds = printDateTime tm := by
  rw [dateTime, h]

/-- The variables hold what the abstract cache says. -/
structure Represents (libc : TimeLibc) (s : LogTime) (tz : TimeZone) (c : Cached) : Prop where
  zone : s.logTimeZone = tz
  second : s.lastSecond = c.second
  empty : c = none → s.time = []
  text : ∀ seconds' tz', c = some (seconds', tz') →
    s.time = dateTime libc tz' seconds' ∧ s.time.length = 17

/-- The cached text is replaced if the second is another. -/
theorem Represents.refresh (h : Represents libc s tz c) {tm : Tm}
    (htm : brokenDown libc tz seconds = .ok tm) (h0 : 0 ≤ tm.tm_year + 1900)
    (h1 : tm.tm_year + 1900 ≤ 9999) :
    ∃ s', refresh libc s seconds = .ok s' ∧ Represents libc s' tz (c.after tz seconds) := by
  have hlen := length_printDateTime (twoDigits_of_brokenDown htm) h0 h1
  rw [LogTime.refresh, Cached.after, h.second, h.zone]
  split_ifs with hne
  · rw [htm, ok_bind, assert_bind_of hlen]
    refine ⟨_, rfl, rfl, rfl, by rintro ⟨⟩, ?_⟩
    rintro seconds' tz' hsome
    obtain ⟨rfl, rfl⟩ := Prod.mk.inj (Option.some.inj hsome)
    have htake : (printDateTime tm).take 63 = printDateTime tm :=
      List.take_of_length_le (by omega)
    exact ⟨htake.trans (dateTime_eq htm).symm, by rw [htake, hlen]⟩
  · exact ⟨s, rfl, h⟩

/-- The cached text is the text of the second exactly if the cache can be used. -/
theorem Represents.usable_iff {s' : LogTime} (h : Represents libc s' tz (c.after tz seconds)) :
    c.Usable libc tz seconds ↔ s'.time.length = 17 ∧ s'.time = dateTime libc tz seconds := by
  by_cases hne : seconds ≠ c.second
  · -- the text is new
    rw [Cached.after, if_pos hne] at h
    obtain ⟨htext, hlen⟩ := h.text seconds tz rfl
    refine iff_of_true ?_ ⟨hlen, htext⟩
    cases c with
    | none => exact hne
    | some p => exact fun heq ↦ absurd heq hne
  · rw [Cached.after, if_neg hne] at h
    rw [not_not] at hne
    cases c with
    | none =>
      refine iff_of_false (fun hused ↦ hused hne) fun hlen ↦ ?_
      rw [h.empty rfl] at hlen
      exact absurd hlen.1 (by decide)
    | some p =>
      obtain ⟨htext, hlen⟩ := h.text p.1 p.2 rfl
      have hseconds : seconds = p.1 := hne
      rw [and_iff_right hlen, htext, ← hseconds]
      exact ⟨fun hused ↦ hused hseconds, fun heq _ ↦ heq⟩

theorem writeTime_eq (s : LogTime) {text : List Char} {len : ℕ} (hlen : len < 32) :
    writeTime s text len =
      if s.time.length = 17 ∧ text.length = len then .ok (s, s.time ++ text)
      else .error .assertion := by
  unfold writeTime fmt checkedText
  by_cases htext : text.length = len
  · rw [assert_bind_of (by omega), ok_bind, assert_bind_of htext]
    by_cases htime : s.time.length = 17
    · rw [assert_bind_of htime, ok_bind, assert_bind_of htext, ok_bind,
        if_pos ⟨htime, htext⟩]
    · rw [assert_bind_of_not htime, if_neg fun h ↦ htime h.1]
      rfl
  · rw [if_neg fun h ↦ htext h.2]
    by_cases hfmt : text.length < 32
    · rw [assert_bind_of hfmt, ok_bind, assert_bind_of_not htext]
    · rw [assert_bind_of_not hfmt]
      rfl

/-- **`formatTime`.** It writes the cached text and the microseconds, or an assertion fails. -/
theorem formatTime_eq {s' : LogTime} {micros : ℤ}
    (h : LogTime.refresh libc s (secondsOf micros) = .ok s') :
    formatTime libc s micros =
      if s'.time.length = 17 ∧ -100000 < microsecondsOf micros then
        .ok (s', s'.time ++ fractionText s'.logTimeZone micros)
      else .error .assertion := by
  have hdigits : (printZeros 6 (microsecondsOf micros)).length = 6 ↔
      -100000 < microsecondsOf micros := by
    have hlt := Int.tmod_lt_of_pos micros (b := kMicroSecondsPerSecond) (by decide)
    rw [length_printZeros_eq_iff (by norm_num)]
    norm_num [microsecondsOf, kMicroSecondsPerSecond] at hlt ⊢
    omega
  have hlength : ∀ (e : List Char) (n : ℕ), n = 7 + e.length →
      (('.' :: (printZeros 6 (microsecondsOf micros) ++ e)).length = n ↔
        -100000 < microsecondsOf micros) := by
    intro e n hn
    rw [← hdigits, List.length_cons, List.length_append]
    omega
  rw [formatTime, h, ok_bind, fractionText]
  cases s'.logTimeZone.valid with
  | false =>
    simp only [Bool.false_eq_true, if_false]
    rw [writeTime_eq _ (by norm_num)]
    simp only [hlength ['Z', ' '] 9 rfl]
  | true =>
    simp only [if_true]
    rw [writeTime_eq _ (by norm_num)]
    simp only [hlength [' '] 8 rfl]

end Event

/-! ## Whole runs -/

section Run

variable {libc : TimeLibc}

theorem emit_eq_expected_iff {s : LogTime} {tz : TimeZone} {c : Cached} {events : List Event}
    (h : Represents libc s tz c) (hyears : InYears libc tz events) :
    emit libc s events = .ok (expected libc tz events) ↔ StaysFresh libc tz c events := by
  induction events generalizing s tz c with
  | nil => exact iff_of_true rfl trivial
  | cons event events ih =>
    cases event with
    | setTimeZone tz' =>
      exact ih ⟨rfl, h.second, h.empty, h.text⟩ hyears
    | log micros =>
      obtain ⟨⟨tm, htm, h0, h1⟩, hyears⟩ := hyears
      obtain ⟨s', hrefresh, h'⟩ := h.refresh htm h0 h1
      rw [emit, formatTime_eq hrefresh, StaysFresh, h'.usable_iff, expected, ← ih h' hyears,
        h'.zone]
      by_cases hok : s'.time.length = 17 ∧ -100000 < microsecondsOf micros
      · rw [if_pos hok, ok_bind, bind_eq_ok]
        constructor
        · rintro ⟨texts, htexts, hall⟩
          obtain ⟨htext, rfl⟩ := List.cons.inj (Except.ok.inj hall)
          exact ⟨⟨hok.1, List.append_cancel_right htext⟩, hok.2, htexts⟩
        · rintro ⟨⟨-, htime⟩, -, htexts⟩
          exact ⟨_, htexts, by rw [htime]⟩
      · rw [if_neg hok]
        refine iff_of_false nofun fun hall ↦ hok ⟨hall.1.1, hall.2.1⟩

theorem represents_new : Represents libc new ⟨none⟩ none := ⟨rfl, rfl, fun _ ↦ rfl, nofun⟩

/-- **The cached time.** For events in the years from 0 to 9999, with zones set in between, the
logger writes what it would write without its cache, and no assertion fails, exactly if the cache
stays fresh. -/
theorem emit_fresh_iff (libc : TimeLibc) (events : List Event)
    (hyears : InYears libc ⟨none⟩ events) :
    emit libc new events = .ok (expected libc ⟨none⟩ events) ↔
      StaysFresh libc ⟨none⟩ none events :=
  emit_eq_expected_iff represents_new hyears

/-- A zone that is set between two seconds. -/
theorem emit_fresh_zone_between :
    emit .posix new [.log 1500000, .setTimeZone (.ofOffset 28800 []), .log 2250000] =
      .ok ["19700101 00:00:01.500000Z ".toList, "19700101 08:00:02.250000 ".toList] := by
  refine ((emit_fresh_iff .posix _ ?_).2 ?_).trans ?_
  · exact ⟨⟨_, rfl, by decide, by decide⟩, ⟨_, rfl, by decide, by decide⟩, trivial⟩
  · exact ⟨show secondsOf 1500000 ≠ 0 by decide, by decide, fun h ↦ absurd h (by decide),
      by decide, trivial⟩
  · decide +kernel

/-- Second zero before any other, a zone that is set within a second, and half a second before
second `-1`. -/
theorem emit_stale :
    InYears .posix ⟨none⟩ [.log 0] ∧ emit .posix new [.log 0] = .error .assertion ∧
    InYears .posix ⟨none⟩ [.log 1500000, .setTimeZone (.ofOffset 28800 []), .log 1750000] ∧
    emit .posix new [.log 1500000, .setTimeZone (.ofOffset 28800 []), .log 1750000] =
      .ok ["19700101 00:00:01.500000Z ".toList, "19700101 00:00:01.750000 ".toList] ∧
    expected .posix ⟨none⟩ [.log 1500000, .setTimeZone (.ofOffset 28800 []), .log 1750000] =
      ["19700101 00:00:01.500000Z ".toList, "19700101 08:00:01.750000 ".toList] ∧
    InYears .posix ⟨none⟩ [.log (-1500000)] ∧
    emit .posix new [.log (-1500000)] = .error .assertion := by
  refine ⟨?_, ?_, ?_, ?_, ?_, ?_, ?_⟩
  · exact ⟨⟨_, rfl, by decide, by decide⟩, trivial⟩
  · rfl
  · exact ⟨⟨_, rfl, by decide, by decide⟩, ⟨_, rfl, by decide, by decide⟩, trivial⟩
  · rfl
  · decide +kernel
  · exact ⟨⟨_, rfl, by decide, by decide⟩, trivial⟩
  · rfl

end Run

end LogTime

end Fishnet
