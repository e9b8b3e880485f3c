import Barn.Data.StepTable
import Barn.Hdfs.Tai64

/-!
# Leap seconds

The table of leap seconds as a step table of local midnights, and the round trip of encoding a time
and decoding its label (`convertTai64ToTime_convertDateToTai64`).
-/

namespace Barn

/-- The zone tells when the dates of the leap seconds begin, within a day of when they do at an
offset. -/
def DateTimeZone.TellsLeapDates (zone : DateTimeZone) (offset : ℤ) : Prop :=
  ∀ entry ∈ Hdfs.conversionEntries, ∃ midnight, zone.ofDate entry.1 = .ok midnight ∧
    midnightOf offset entry.1.toDays - millisPerDay < midnight ∧
    midnight < midnightOf offset entry.1.toDays + millisPerDay

namespace Hdfs

open StepTable

/-- The thresholds of the table, in milliseconds since 1970. -/
def leapThresholds (jvm : Jvm) : List (ℤ × ℤ) :=
  conversionEntries.map fun entry => ((jvm.zone.ofDate entry.1).toOption.getD 0, entry.2)

section Table

variable {jvm : Jvm} {offset : ℤ}

/-- Zones of fixed offset do. -/
theorem tellsLeapDates_forOffsetMillis (offset : ℤ) :
    (DateTimeZone.forOffsetMillis offset).TellsLeapDates offset := by
  have hdates : ∀ entry ∈ conversionEntries, CalendarDate.ofDays entry.1.toDays = entry.1 := by
    decide
  intro entry hentry
  refine ⟨midnightOf offset entry.1.toDays, ?_, ?_, ?_⟩
  · simp only [DateTimeZone.forOffsetMillis, if_pos (hdates entry hentry)]
  · unfold millisPerDay
    omega
  · unfold millisPerDay
    omega

/-- Their thresholds. -/
theorem leapThresholds_forOffsetMillis (hzone : jvm.zone = .forOffsetMillis offset) :
    leapThresholds jvm =
      conversionEntries.map fun entry => (midnightOf offset entry.1.toDays, entry.2) := by
  have hdates : ∀ entry ∈ conversionEntries, CalendarDate.ofDays entry.1.toDays = entry.1 := by
    decide
  refine List.map_congr_left fun entry hentry => ?_
  simp only [hzone, DateTimeZone.forOffsetMillis, if_pos (hdates entry hentry), Except.toOption,
    Option.getD_some]

/-- The dates of the leap seconds are at least months apart. -/
theorem conversionEntries_apart : conversionEntries.Pairwise fun first second =>
    midnightOf 0 first.1.toDays + 2 * millisPerDay + 1000 * first.2 ≤
      midnightOf 0 second.1.toDays ∧ first.2 < second.2 := by
  decide

/-- The table is spaced. -/
theorem spaced_leapThresholds (h : jvm.zone.TellsLeapDates offset) :
    Spaced 1000 (leapThresholds jvm) where
  unit_nonneg := by decide
  nonneg := by
    have hseconds : ∀ entry ∈ conversionEntries, 0 ≤ entry.2 := by decide
    intro entry hentry
    obtain ⟨listed, hlisted, rfl⟩ := List.mem_map.1 hentry
    exact hseconds listed hlisted
  apart := by
    rw [leapThresholds, List.pairwise_map]
    refine conversionEntries_apart.imp_of_mem fun {first second} hfirst hsecond hapart => ?_
    obtain ⟨midnight, hmidnight, hlow, hhigh⟩ := h first hfirst
    obtain ⟨midnight', hmidnight', hlow', hhigh'⟩ := h second hsecond
    have hseconds : ∀ entry ∈ conversionEntries, 0 ≤ entry.2 := by decide
    have hnonneg := hseconds first hfirst
    simp only [hmidnight, hmidnight', Except.toOption, Option.getD_some]
    unfold midnightOf millisPerDay at *
    omega

/-- Looking the leap seconds up. -/
theorem leapSecond_eq (h : jvm.zone.TellsLeapDates offset) (time : DateTime) :
    leapSecond jvm time = .ok (stepAt (leapThresholds jvm) time.millis) := by
  have htable : conversionTable jvm = .ok ((leapThresholds jvm).map fun entry =>
      (⟨entry.1, jvm.zone⟩, entry.2)) := by
    rw [leapThresholds, List.map_map]
    refine mapM_eq_ok fun entry hentry => ?_
    obtain ⟨midnight, hmidnight, _⟩ := h entry hentry
    simp only [DateTime.ofDate, hmidnight, Except.map, Except.toOption, Function.comp_apply,
      Option.getD_some]
    rfl
  rw [leapSecond, htable]
  simp only [bind, Except.bind, stepAt]
  rw [← List.map_reverse, List.find?_map, Option.map_map]
  rfl

/-- A time is encoded as the label of the time with leap seconds. -/
theorem convertDateToTai64_spec {time : DateTime} {extraSeconds : ℤ}
    (hleap : leapSecond jvm time = .ok extraSeconds) (hlow : 0 ≤ time.millis + extraSeconds * 1000)
    (hhigh : time.millis + extraSeconds * 1000 < 2 ^ 62 * 2) :
    ∃ label, convertDateToTai64 jvm time = .ok label ∧ IsTai64n label ∧
      labelMillis label = time.millis + extraSeconds * 1000 := by
  rw [convertDateToTai64, hleap]
  generalize hmillis : time.millis + extraSeconds * 1000 = millis at *
  have hseconds : millis.tdiv 1000 = millis / 1000 := Int.tdiv_eq_ediv_of_nonneg hlow
  have htai : toLong (millis / 1000 + taiBase) = ((millis / 1000 + taiBase).toNat : ℤ) := by
    unfold taiBase
    rw [toLong_of_range (by omega) (by omega)]
    omega
  have hrest : toLong (millis - toLong (millis / 1000 * 1000)) = millis % 1000 := by
    rw [toLong_of_range (show -2 ^ 63 ≤ millis / 1000 * 1000 by omega) (by omega),
      toLong_of_range (by omega) (by omega)]
    omega
  have hnano : toLong (millis % 1000 * 1000000) = ((millis % 1000 * 1000000).toNat : ℤ) := by
    rw [toLong_of_range (by omega) (by omega)]
    omega
  simp only [bind, Except.bind, DateTime.plusSeconds, hmillis, hseconds, htai, hrest, hnano]
  have htaiFits : (millis / 1000 + taiBase).toNat < 2 ^ 63 := by
    unfold taiBase
    omega
  obtain ⟨hlength, hlower, hvalue⟩ := toHexString_spec 16 (millis / 1000 + taiBase).toNat
    (by omega) (by decide) (by omega)
  obtain ⟨hlength', hlower', hvalue'⟩ := toHexString_spec 8 (millis % 1000 * 1000000).toNat
    (by omega) (by decide) (by omega)
  refine ⟨_, rfl, ⟨?_, fun unit hunit => ?_, fun value hvalue => ?_⟩, ?_⟩
  · rw [List.length_append, hlength, hlength']
  · rcases List.mem_append.1 hunit with hfirst | hsecond
    · exact hlower unit hfirst
    · exact hlower' unit hsecond
  · rw [List.drop_left' hlength, hvalue', Option.some.injEq] at hvalue
    omega
  · rw [labelMillis, List.take_left' hlength, List.drop_left' hlength, hvalue, hvalue',
      Option.getD_some, Option.getD_some]
    unfold taiBase
    omega

/-- Looking up never yields more than the last value of the table. -/
theorem stepAt_leapThresholds_le (jvm : Jvm) (place : ℤ) :
    stepAt (leapThresholds jvm) place ≤ 35 := by
  have hseconds : ∀ entry ∈ conversionEntries, entry.2 ≤ 35 := by decide
  refine stepAt_le (by decide) (fun entry hentry => ?_) place
  obtain ⟨listed, hlisted, rfl⟩ := List.mem_map.1 hentry
  exact hseconds listed hlisted

/-- Decoding the label of a time gives the time back, except in the last seconds before the leap
seconds change. -/
theorem convertTai64ToTime_convertDateToTai64 (hzone : jvm.zone.TellsLeapDates offset) {millis : ℤ}
    (hlow : 0 ≤ millis) (hhigh : millis < 2 ^ 53 * 1000) :
    (convertDateToTai64 jvm ⟨millis, .utc⟩ >>= convertTai64ToTime jvm) = .ok ⟨millis, .utc⟩ ↔
      ∀ before first second after, leapThresholds jvm = before ++ first :: second :: after →
        ¬(second.1 - 1000 * first.2 < millis ∧ millis ≤ second.1) := by
  have hspaced := spaced_leapThresholds hzone
  have hnonneg := hspaced.stepAt_nonneg millis
  have hbound := stepAt_leapThresholds_le jvm millis
  obtain ⟨label, hlabel, htai, hmillis⟩ := convertDateToTai64_spec
    (leapSecond_eq hzone ⟨millis, .utc⟩) (by dsimp only; omega) (by dsimp only; omega)
  dsimp only at hmillis
  have hdecoded : convertTai64ToTime jvm label = .ok ⟨labelMillis label -
      stepAt (leapThresholds jvm) (labelMillis label) * 1000, .utc⟩ := by
    rw [convertTai64ToTime_label jvm htai.length_eq htai.lower.isHex (by rw [hmillis]; omega)
      (by rw [hmillis]; omega), leapSecond_eq hzone]
    rfl
  have hbind : (convertDateToTai64 jvm ⟨millis, .utc⟩ >>= convertTai64ToTime jvm) =
      .ok ⟨labelMillis label - stepAt (leapThresholds jvm) (labelMillis label) * 1000, .utc⟩ := by
    rw [hlabel]
    exact hdecoded
  rw [hbind, hmillis, ← hspaced.stepAt_add_iff millis, Except.ok.injEq, DateTime.mk.injEq,
    mul_comm 1000]
  constructor
  · intro h
    have hequal := h.1
    omega
  · intro h
    rw [h]
    exact ⟨by omega, rfl⟩

/-- The last time before the leap second of 2012 that is converted there and back, 34 seconds before
the date of the table. -/
theorem convertTai64ToTime_convertDateToTai64_late :
    (convertDateToTai64 .utc ⟨1341100766000, .utc⟩ >>= convertTai64ToTime .utc) =
      .ok ⟨1341100766000, .utc⟩ := by
  have hchain : (leapThresholds .utc).IsChain fun first second =>
      ¬(second.1 - 1000 * first.2 < 1341100766000 ∧ 1341100766000 ≤ second.1) := by decide
  refine (convertTai64ToTime_convertDateToTai64 (tellsLeapDates_forOffsetMillis 0) (by decide)
    (by decide)).2 fun before first second after hsplit => ?_
  rw [hsplit] at hchain
  exact (List.isChain_cons_cons.1 (List.isChain_append.1 hchain).2.1).1

/-- Ten seconds before 2012-07-01 the time that is decoded is a second too early. -/
theorem roundTrip_beforeLeap :
    (convertDateToTai64 .utc ⟨1341100790000, .utc⟩ >>= convertTai64ToTime .utc) ≠
      .ok ⟨1341100790000, .utc⟩ := by
  have hmillis : ((convertDateToTai64 .utc ⟨1341100790000, .utc⟩ >>=
      convertTai64ToTime .utc).toOption.map DateTime.millis) = some 1341100789000 := by
    decide
  intro h
  rw [h] at hmillis
  simp [Except.toOption] at hmillis

end Table

end Hdfs

end Barn
