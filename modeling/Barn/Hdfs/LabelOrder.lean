import Barn.Hdfs.LeapSeconds

/-!
# The order of labels

Encoding keeps the order of times (`convertDateToTai64_lt`). Decoding keeps the order of labels
except around the entries of the table (`convertTai64ToTime_le_iff`), where the leap seconds that
are subtracted grow by more than the time between the labels.
-/

namespace Barn.Hdfs

open StepTable

/-- A label of 24 hexadecimal digits, from 1970 on and with less than a second of nanoseconds. -/
structure IsHexLabel (label : Text) : Prop where
  length_eq : label.length = 24
  hex : IsHex label
  seconds : ∀ value, digitsValue asciiDigit 0 (label.take 16) = some value →
    2 ^ 62 ≤ value ∧ value ≤ 2 ^ 62 + 2 ^ 40
  nanos : ∀ value, digitsValue asciiDigit 0 (label.drop 16) = some value → value < 10 ^ 9

/-- Subtracting the leap seconds leaves the first time at or before the second one: no entry
overtakes the distance, or the labels are not in the order of times and an entry makes up for it. -/
def KeepsOrder (table : List (ℤ × ℤ)) (first second : ℤ) : Prop :=
  if first ≤ second then ¬Overtakes 1000 table first second 0
  else Overtakes 1000 table second first 1

section Order

variable {jvm : Jvm} {offset : ℤ}

/-- The dates of the leap seconds are at least three days apart. -/
theorem conversionEntries_days_apart : conversionEntries.Pairwise fun first second =>
    midnightOf 0 first.1.toDays + 3 * millisPerDay ≤ midnightOf 0 second.1.toDays := by
  decide

/-- So each threshold is further away from the one before it than its own value. -/
theorem leapThresholds_wide (h : jvm.zone.TellsLeapDates offset) :
    (leapThresholds jvm).Pairwise fun first second => first.1 + 1000 * second.2 ≤ second.1 := by
  rw [leapThresholds, List.pairwise_map]
  refine conversionEntries_days_apart.imp_of_mem fun {first second} hfirst hsecond hapart => ?_
  obtain ⟨midnight, hmidnight, _, hhigh⟩ := h first hfirst
  obtain ⟨midnight', hmidnight', hlow', _⟩ := h second hsecond
  have hseconds : ∀ entry ∈ conversionEntries, entry.2 ≤ 35 := by decide
  have hbound := hseconds second hsecond
  simp only [hmidnight, hmidnight', Except.toOption, Option.getD_some]
  unfold midnightOf millisPerDay at *
  omega

/-- Later times are encoded as greater labels. -/
theorem convertDateToTai64_lt (hzone : jvm.zone.TellsLeapDates offset) {earlier later : DateTime}
    (hlow : 0 ≤ earlier.millis) (hlt : earlier.millis < later.millis)
    (hhigh : later.millis < 2 ^ 53 * 1000) :
    ∃ first second, convertDateToTai64 jvm earlier = .ok first ∧
      convertDateToTai64 jvm later = .ok second ∧
      first.length = 24 ∧ IsLowerHex first ∧ second.length = 24 ∧ IsLowerHex second ∧
      first < second := by
  have hspaced := spaced_leapThresholds hzone
  have hnonneg := hspaced.stepAt_nonneg earlier.millis
  have hmono := hspaced.stepAt_mono hlt.le
  have hbound := stepAt_leapThresholds_le jvm later.millis
  obtain ⟨first, hfirst, htai, hmillis⟩ := convertDateToTai64_spec (leapSecond_eq hzone earlier)
    (by omega) (by omega)
  obtain ⟨second, hsecond, htai', hmillis'⟩ := convertDateToTai64_spec (leapSecond_eq hzone later)
    (by omega) (by omega)
  refine ⟨first, second, hfirst, hsecond, htai.length_eq, htai.lower, htai'.length_eq, htai'.lower,
    ?_⟩
  -- Labels in the other order would denote times in that order.
  rcases lt_trichotomy first second with hless | heq | hgreater
  · exact hless
  · rw [heq] at hmillis
    omega
  · have hle := labelMillis_le_of_lt htai' htai hgreater
    omega

/-- The second before the leap second of 2012 and the one after it. -/
theorem convertDateToTai64_lt_leap :
    ∃ first second, convertDateToTai64 .utc ⟨1341100799000, .utc⟩ = .ok first ∧
      convertDateToTai64 .utc ⟨1341100801000, .utc⟩ = .ok second ∧
      first.length = 24 ∧ IsLowerHex first ∧ second.length = 24 ∧ IsLowerHex second ∧
      first < second :=
  convertDateToTai64_lt (tellsLeapDates_forOffsetMillis 0) (by decide) (by decide) (by decide)

/-- The milliseconds of a label from 1970 on fit into a `long`. -/
theorem IsHexLabel.millis {label : Text} (h : IsHexLabel label) :
    0 ≤ labelMillis label ∧ labelMillis label < 2 ^ 63 := by
  obtain ⟨seconds, hseconds⟩ := digitsValue_isSome
    (fun unit hunit => h.hex unit (List.mem_of_mem_take hunit) : IsHex (label.take 16)) 0
  obtain ⟨nanos, hnanos⟩ := digitsValue_isSome
    (fun unit hunit => h.hex unit (List.mem_of_mem_drop hunit) : IsHex (label.drop 16)) 0
  have hrange := h.seconds seconds hseconds
  have hbound := h.nanos nanos hnanos
  rw [labelMillis, hseconds, hnanos, Option.getD_some, Option.getD_some]
  unfold taiBase
  omega

/-- Such a label is decoded by subtracting the leap seconds. -/
theorem convertTai64ToTime_of_isHexLabel (hzone : jvm.zone.TellsLeapDates offset) {label : Text}
    (h : IsHexLabel label) :
    convertTai64ToTime jvm label = .ok ⟨labelMillis label -
      1000 * stepAt (leapThresholds jvm) (labelMillis label), .utc⟩ := by
  obtain ⟨hlow, hhigh⟩ := h.millis
  have hlabel := convertTai64ToTime_label jvm h.length_eq h.hex (by omega) hhigh
  rw [leapSecond_eq hzone] at hlabel
  refine hlabel.trans ?_
  rw [Except.map, mul_comm]

/-- Subtracting the leap seconds keeps the order exactly if the condition says so. -/
theorem keepsOrder_iff (hzone : jvm.zone.TellsLeapDates offset) (first second : ℤ) :
    first - 1000 * stepAt (leapThresholds jvm) first ≤
        second - 1000 * stepAt (leapThresholds jvm) second ↔
      KeepsOrder (leapThresholds jvm) first second := by
  have hspaced := spaced_leapThresholds hzone
  have hwide := leapThresholds_wide hzone
  unfold KeepsOrder
  split
  · next hle =>
      rw [← hspaced.sub_stepAt_add_le_iff hwide le_rfl zero_le_one (by omega), add_zero]
  · next hgt =>
      rw [← not_iff_not, ← hspaced.sub_stepAt_add_le_iff hwide zero_le_one le_rfl (by omega)]
      omega

/-- Of two labels in the order of strings the first one is decoded to no later time exactly if no
entry of the table comes between; in lower case the labels are in the order of times. -/
theorem convertTai64ToTime_le_iff (hzone : jvm.zone.TellsLeapDates offset) {first second : Text}
    (hfirst : IsHexLabel first) (hsecond : IsHexLabel second) (hle : first ≤ second) :
    ((∃ time time', convertTai64ToTime jvm first = .ok time ∧
        convertTai64ToTime jvm second = .ok time' ∧ time.isAfter time' = false) ↔
      KeepsOrder (leapThresholds jvm) (labelMillis first) (labelMillis second)) ∧
    (IsLowerHex first → IsLowerHex second → labelMillis first ≤ labelMillis second) := by
  constructor
  · rw [← keepsOrder_iff hzone, convertTai64ToTime_of_isHexLabel hzone hfirst,
      convertTai64ToTime_of_isHexLabel hzone hsecond]
    constructor
    · rintro ⟨time, time', htime, htime', hafter⟩
      rw [← Except.ok.inj htime, ← Except.ok.inj htime'] at hafter
      exact not_lt.1 (of_decide_eq_false hafter)
    · intro h
      exact ⟨_, _, rfl, rfl, decide_eq_false (not_lt.2 h)⟩
  · intro hlower hlower'
    rcases hle.lt_or_eq with hlt | rfl
    · exact labelMillis_le_of_lt ⟨hfirst.length_eq, hlower, hfirst.nanos⟩
        ⟨hsecond.length_eq, hlower', hsecond.nanos⟩ hlt
    · exact le_rfl

end Order

section Sample

/-- A label is checked by evaluating its parts. -/
theorem isHexLabel_of_values {label : Text} (seconds nanos : ℕ) (hlength : label.length = 24)
    (hhex : IsHex label) (hseconds : digitsValue asciiDigit 0 (label.take 16) = some seconds)
    (hnanos : digitsValue asciiDigit 0 (label.drop 16) = some nanos)
    (hrange : 2 ^ 62 ≤ seconds ∧ seconds ≤ 2 ^ 62 + 2 ^ 40) (hbound : nanos < 10 ^ 9) :
    IsHexLabel label where
  length_eq := hlength
  hex := hhex
  seconds := fun value hvalue => by
    rw [hseconds, Option.some.injEq] at hvalue
    omega
  nanos := fun value hvalue => by
    rw [hnanos, Option.some.injEq] at hvalue
    omega

/-- The label of the date 2012-07-01, the last one of the table. -/
theorem isHexLabel_leapDate : IsHexLabel (text "400000004fef930000000000") :=
  isHexLabel_of_values 4611686019768488704 0 rfl (by decide) (by decide) (by decide) (by decide)
    (by decide)

/-- The label half a second later. -/
theorem isHexLabel_afterLeapDate : IsHexLabel (text "400000004fef93001dcd6500") :=
  isHexLabel_of_values 4611686019768488704 500000000 rfl (by decide) (by decide) (by decide)
    (by decide) (by decide)

/-- The label a second later. -/
theorem isHexLabel_secondAfterLeapDate : IsHexLabel (text "400000004fef930100000000") :=
  isHexLabel_of_values 4611686019768488705 0 rfl (by decide) (by decide) (by decide) (by decide)
    (by decide)

/-- A second after the date the time that is decoded is not earlier. -/
theorem convertTai64ToTime_le_late :
    ∃ time time', convertTai64ToTime .utc (text "400000004fef930000000000") = .ok time ∧
      convertTai64ToTime .utc (text "400000004fef930100000000") = .ok time' ∧
      time.isAfter time' = false := by
  refine (convertTai64ToTime_le_iff (tellsLeapDates_forOffsetMillis 0) isHexLabel_leapDate
    isHexLabel_secondAfterLeapDate (by decide)).1.2 ?_
  have hmillis : labelMillis (text "400000004fef930000000000") = 1341100800000 := by decide
  have hmillis' : labelMillis (text "400000004fef930100000000") = 1341100801000 := by decide
  rw [hmillis, hmillis', KeepsOrder, if_pos (by decide)]
  rintro ⟨before, entry, after, htable, hfrom, _, hovertakes⟩
  have hsteps : ∀ index < (leapThresholds .utc).length, ∀ entry,
      (leapThresholds .utc)[index]? = some entry → 1341100800000 ≤ entry.1 →
        entry.2 - lastStep ((leapThresholds .utc).take index) ≤ 1 := by decide
  have hstep := hsteps before.length (by rw [htable]; simp) entry (by rw [htable]; simp) hfrom
  rw [htable, List.take_left] at hstep
  omega

/-- Half a second after the date the time that is decoded is half a second earlier. -/
theorem decoding_goes_back :
    IsHexLabel (text "400000004fef930000000000") ∧ IsHexLabel (text "400000004fef93001dcd6500") ∧
      text "400000004fef930000000000" ≤ text "400000004fef93001dcd6500" ∧
      ∃ time time', convertTai64ToTime .utc (text "400000004fef930000000000") = .ok time ∧
        convertTai64ToTime .utc (text "400000004fef93001dcd6500") = .ok time' ∧
        time.isAfter time' = true :=
  ⟨isHexLabel_leapDate, isHexLabel_afterLeapDate, by decide, ⟨1341100766000, .utc⟩,
    ⟨1341100765500, .utc⟩, convertTai64ToTime_of_millis (by decide),
    convertTai64ToTime_of_millis (by decide), by decide⟩

end Sample

end Barn.Hdfs
