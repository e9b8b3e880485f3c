import Barn.Data.Calendar
import Barn.Platform.Java

/-!
# Joda-Time

Instants in milliseconds since 1970 with a time zone. A `DateTimeZone` is what the collector uses
of one; `DateTimeZone.forOffsetMillis` are the zones of fixed offset.
-/

namespace Barn

/-- Milliseconds in a day. -/
abbrev millisPerDay : ℤ := 86400000

/-- What a time zone does: the local date of an instant, going back whole days, the local midnight
at or before an instant, and the instant of a date's midnight, which need not exist. Going back
days deviates from whole multiples by less than a day, and a date's midnight is not after any of
its instants. -/
structure DateTimeZone where
  toLocalDate : ℤ → CalendarDate
  minusDays : ℤ → ℕ → ℤ
  toDateMidnight : ℤ → ℤ
  ofDate : CalendarDate → Throws ℤ
  minusDays_le : ∀ instant days,
    minusDays instant days ≤ instant - days * millisPerDay + millisPerDay
  ofDate_le : ∀ instant midnight, ofDate (toLocalDate instant) = .ok midnight → midnight ≤ instant

/-- The day, counted from 1970-01-01, of an instant at a fixed offset. -/
def dayAt (offset instant : ℤ) : ℤ :=
  (instant + offset) / millisPerDay

/-- The first instant of a day at a fixed offset. -/
def midnightOf (offset day : ℤ) : ℤ :=
  day * millisPerDay - offset

/-- The first instant of a day lies in it. -/
theorem dayAt_midnightOf (offset day : ℤ) : dayAt offset (midnightOf offset day) = day := by
  unfold dayAt midnightOf millisPerDay
  omega

/-- A day begins at or before each of its instants. -/
theorem midnightOf_le_iff (offset day instant : ℤ) :
    midnightOf offset day ≤ instant ↔ day ≤ dayAt offset instant := by
  unfold midnightOf dayAt millisPerDay
  omega

/-- `DateTimeZone.forOffsetMillis` -/
def DateTimeZone.forOffsetMillis (offset : ℤ) : DateTimeZone where
  toLocalDate := fun instant => .ofDays (dayAt offset instant)
  minusDays := fun instant days => instant - days * millisPerDay
  toDateMidnight := fun instant => midnightOf offset (dayAt offset instant)
  ofDate := fun date =>
    if .ofDays date.toDays = date then .ok (midnightOf offset date.toDays)
    else .error .illegalArgument
  minusDays_le := by
    intro instant days
    unfold millisPerDay
    omega
  ofDate_le := by
    intro instant midnight h
    rw [CalendarDate.toDays_ofDays, if_pos rfl, Except.ok.injEq] at h
    rw [← h, midnightOf_le_iff]

/-- The local date is that of these days, and it never goes back: not as time passes, and not when
one more day is subtracted. -/
structure DateTimeZone.Advances (zone : DateTimeZone) (day : ℤ → ℤ) : Prop where
  toLocalDate_eq : ∀ instant, zone.toLocalDate instant = .ofDays (day instant)
  day_le : ∀ {earlier later}, earlier ≤ later → day earlier ≤ day later
  minusDays_zero : ∀ instant, zone.minusDays instant 0 = instant
  minusDays_succ : ∀ instant days, zone.minusDays instant (days + 1) ≤ zone.minusDays instant days

/-- At a fixed offset it does not. -/
theorem DateTimeZone.forOffsetMillis_advances (offset : ℤ) :
    (DateTimeZone.forOffsetMillis offset).Advances (dayAt offset) where
  toLocalDate_eq := fun _ => rfl
  day_le := by
    intro earlier later h
    unfold dayAt millisPerDay
    omega
  minusDays_zero := fun instant => by simp [forOffsetMillis]
  minusDays_succ := by
    intro instant days
    simp only [forOffsetMillis]
    push_cast
    unfold millisPerDay
    omega

/-- A zone that changes once from one offset to a smaller one. A local time that occurs twice is
taken to be the earlier instant. -/
def DateTimeZone.fallBack (transition before after : ℤ) (hless : after ≤ before)
    (hday : before ≤ after + millisPerDay) : DateTimeZone where
  toLocalDate := fun instant =>
    .ofDays (dayAt (if instant < transition then before else after) instant)
  minusDays := fun instant days =>
    let localMillis := instant + (if instant < transition then before else after) -
      days * millisPerDay
    if localMillis - before < transition then localMillis - before else localMillis - after
  toDateMidnight := fun instant =>
    let day := dayAt (if instant < transition then before else after) instant
    if midnightOf before day < transition then midnightOf before day else midnightOf after day
  ofDate := fun date =>
    if .ofDays date.toDays = date then
      .ok (if midnightOf before date.toDays < transition then midnightOf before date.toDays
        else midnightOf after date.toDays)
    else .error .illegalArgument
  minusDays_le := by
    intro instant days
    dsimp only
    split <;> split <;> omega
  ofDate_le := by
    intro instant midnight h
    rw [CalendarDate.toDays_ofDays, if_pos rfl, Except.ok.injEq] at h
    rw [← h]
    clear h
    by_cases hinstant : instant < transition
    · have hmidnight : midnightOf before (dayAt before instant) ≤ instant :=
        (midnightOf_le_iff _ _ _).2 le_rfl
      rw [if_pos hinstant, if_pos (by omega)]
      exact hmidnight
    · rw [if_neg hinstant]
      split
      · omega
      · exact (midnightOf_le_iff _ _ _).2 le_rfl

/-- `DateTimeZone.UTC` -/
def DateTimeZone.utc : DateTimeZone :=
  .forOffsetMillis 0

/-- An instant with a time zone. -/
structure DateTime where
  millis : ℤ
  zone : DateTimeZone

namespace DateTime

/-- `toLocalDate`: the year, month and day of the local date. -/
def toLocalDate (time : DateTime) : CalendarDate :=
  time.zone.toLocalDate time.millis

/-- `minusDays` -/
def minusDays (days : ℕ) (time : DateTime) : DateTime :=
  if days = 0 then time else { time with millis := time.zone.minusDays time.millis days }

/-- `toDateMidnight` -/
def toDateMidnight (time : DateTime) : DateTime :=
  { time with millis := time.zone.toDateMidnight time.millis }

/-- `isBefore` -/
def isBefore (time limit : DateTime) : Bool :=
  time.millis < limit.millis

/-- `isAfter` -/
def isAfter (time limit : DateTime) : Bool :=
  limit.millis < time.millis

/-- `new DateTime(year, month, day, 0, 0)` in a given zone. -/
def ofDate (zone : DateTimeZone) (date : CalendarDate) : Throws DateTime :=
  (zone.ofDate date).map fun millis => ⟨millis, zone⟩

/-- `plusSeconds` -/
def plusSeconds (seconds : ℤ) (time : DateTime) : DateTime :=
  { time with millis := time.millis + seconds * 1000 }

end DateTime

/-- `new Interval(start, end).toDuration.toStandardSeconds` -/
def intervalSeconds (start finish : DateTime) : Throws ℤ :=
  if finish.millis < start.millis then .error .illegalArgument
  else if (finish.millis - start.millis) / 1000 < 2 ^ 31 then
    .ok ((finish.millis - start.millis) / 1000)
  else .error .arithmetic

/-- A Java runtime and its default time zone. -/
structure Jvm extends JavaRuntime where
  zone : DateTimeZone

/-- A runtime in a zone of fixed offset that knows the ASCII digits only. -/
def Jvm.forOffsetMillis (offset : ℤ) : Jvm where
  lineSeparator := [10]
  getStackTrace := fun _ => []
  nonAsciiDigit := fun _ => none
  zone := .forOffsetMillis offset

/-- The runtime of that kind whose default zone is UTC. -/
def Jvm.utc : Jvm :=
  .forOffsetMillis 0

end Barn
