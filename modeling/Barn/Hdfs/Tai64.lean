import Barn.Hdfs.Package

/-!
# TAI64N labels

Decoding the timestamps in svlogd file names, as in `tai64.scala` and `svlogdfile.scala`. The
leap seconds come from a table of local midnights; `convertTai64ToTime_late` is what the decoding
amounts to after the last of them.
-/

namespace Barn.Hdfs

/-- `taiBase` -/
def taiBase : ℤ := 4611686018427387904

/-- The entries of `conversionTable`: local midnights and the seconds added from then on. -/
def conversionEntries : List (CalendarDate × ℤ) :=
  [(⟨1972, 1, 1⟩, 10), (⟨1972, 7, 1⟩, 11), (⟨1973, 1, 1⟩, 12), (⟨1974, 1, 1⟩, 13),
    (⟨1975, 1, 1⟩, 14), (⟨1976, 1, 1⟩, 15), (⟨1977, 1, 1⟩, 16), (⟨1978, 1, 1⟩, 17),
    (⟨1979, 1, 1⟩, 18), (⟨1980, 1, 1⟩, 19), (⟨1981, 7, 1⟩, 20), (⟨1982, 7, 1⟩, 21),
    (⟨1983, 7, 1⟩, 22), (⟨1985, 7, 1⟩, 23), (⟨1988, 1, 1⟩, 24), (⟨1990, 1, 1⟩, 25),
    (⟨1991, 1, 1⟩, 26), (⟨1992, 7, 1⟩, 27), (⟨1993, 7, 1⟩, 28), (⟨1994, 7, 1⟩, 29),
    (⟨1996, 1, 1⟩, 30), (⟨1997, 7, 1⟩, 31), (⟨1999, 1, 1⟩, 32), (⟨2006, 1, 1⟩, 33),
    (⟨2009, 1, 1⟩, 34), (⟨2012, 7, 1⟩, 35)]

/-- `conversionTable`, in the default time zone. -/
def conversionTable (jvm : Jvm) : Throws (List (DateTime × ℤ)) :=
  conversionEntries.mapM fun entry => do
    return (← DateTime.ofDate jvm.zone entry.1, entry.2)

/-- `leapSecond`: the seconds of the last entry before the time. -/
def leapSecond (jvm : Jvm) (time : DateTime) : Throws ℤ := do
  let table ← conversionTable jvm
  return ((table.reverse.find? fun entry => entry.1.isBefore time).map Prod.snd).getD 0

/-- `convertDateToTai64` -/
def convertDateToTai64 (jvm : Jvm) (time : DateTime) : Throws Text := do
  let extraSeconds ← leapSecond jvm time
  let timeDelta := (time.plusSeconds extraSeconds).millis
  let seconds := timeDelta.tdiv 1000
  let nanoInt := toLong (toLong (timeDelta - toLong (seconds * 1000)) * 1000000)
  let taiInt := toLong (seconds + taiBase)
  return (toHexString taiInt).leftpad 16 48 ++ (toHexString nanoInt).leftpad 8 48

/-- `convertTai64ToTime` -/
def convertTai64ToTime (jvm : Jvm) (hex : Text) : Throws DateTime := do
  let taiInt ← parseLong jvm.toJavaRuntime (← substring 0 16 hex)
  let nanoInt ← parseLong jvm.toJavaRuntime (← substring 16 24 hex)
  let seconds := toLong (taiInt - taiBase)
  let final : DateTime := ⟨toLong (toLong (seconds * 1000) + nanoInt.tdiv 1000000), .utc⟩
  let extraSeconds ← leapSecond jvm final
  return final.plusSeconds (-extraSeconds)

/-- `svlogdFileNameToTaiString`: without the `@` and the suffix of two characters. -/
def svlogdFileNameToTaiString (svlogdFileName : Text) : Text :=
  (svlogdFileName.drop 1).rdrop 2

/-- The taistamp in a file's name. -/
def File.taistamp (file : File) : Text :=
  svlogdFileNameToTaiString file.getName

/-- The timestamp in a file's name, decoded where an exception escapes. -/
def fileTime (jvm : Jvm) (file : File) : Throws DateTime :=
  convertTai64ToTime jvm (svlogdFileNameToTaiString file.getName)

/-- `svlogdFileTimestamp` -/
def svlogdFileTimestamp (jvm : Jvm) (svlogdFile : File) : Attempt DateTime :=
  validate jvm (text "Couldn't extract timestamp from svlogd file") (bare (fileTime jvm svlogdFile))

/-- Decoded times are in UTC. -/
theorem convertTai64ToTime_zone {jvm : Jvm} {hex : Text} {time : DateTime}
    (h : convertTai64ToTime jvm hex = .ok time) : time.zone = .utc := by
  simp only [convertTai64ToTime, bind_eq_ok_iff] at h
  obtain ⟨_, _, _, _, _, _, _, _, extraSeconds, _, h⟩ := h
  rw [← Except.ok.inj h]
  rfl

/-- A decoded time is known by its milliseconds. -/
theorem convertTai64ToTime_of_millis {jvm : Jvm} {hex : Text} {millis : ℤ}
    (h : (convertTai64ToTime jvm hex).toOption.map DateTime.millis = some millis) :
    convertTai64ToTime jvm hex = .ok ⟨millis, .utc⟩ := by
  cases htime : convertTai64ToTime jvm hex with
  | error throwable => simp [htime, Except.toOption] at h
  | ok time =>
      have hzone := convertTai64ToTime_zone htime
      simp only [htime, Except.toOption, Option.map_some, Option.some.injEq] at h
      rw [← h, ← hzone]

/-- The name of a file that svlogd has finished: `@`, 24 hexadecimal digits and a suffix of two
characters. -/
def IsSvlogdName (name : Text) : Prop :=
  ∃ label suffix, name = 64 :: (label ++ suffix) ∧ label.length = 24 ∧ IsHex label ∧
    suffix.length = 2

/-- The taistamp of a file of svlogd is what follows the `@`. -/
theorem taistamp_of_name {file : File} {label suffix : Text}
    (hname : file.getName = 64 :: (label ++ suffix)) (hsuffix : suffix.length = 2) :
    file.taistamp = label := by
  rw [File.taistamp, svlogdFileNameToTaiString, hname, List.drop_succ_cons, List.drop_zero,
    List.rdrop_eq_reverse_drop_reverse, List.reverse_append,
    List.drop_left' (by simpa using hsuffix),
    List.reverse_reverse]

/-- What a label denotes, in milliseconds since 1970 that include the leap seconds. -/
def labelMillis (label : Text) : ℤ :=
  ((digitsValue asciiDigit 0 (label.take 16)).getD 0 - taiBase) * 1000 +
    ((digitsValue asciiDigit 0 (label.drop 16)).getD 0 / 1000000 : ℕ)

/-- The label denotes a time after the last entry of the table and its offset. -/
def IsAfterLast (offset : ℤ) (label : Text) : Prop :=
  ∀ entry, conversionEntries.getLast? = some entry →
    midnightOf offset entry.1.toDays + entry.2 * 1000 < labelMillis label

/-- That is so, and a `long` of milliseconds does not overflow. -/
structure IsLate (offset : ℤ) (label : Text) : Prop where
  after_last : IsAfterLast offset label
  low : -2 ^ 63 ≤ labelMillis label
  high : labelMillis label < 2 ^ 63

/-- A label as svlogd writes it: twelve bytes in lower case hexadecimal digits, the last four of
which count nanoseconds. -/
structure IsTai64n (label : Text) : Prop where
  length_eq : label.length = 24
  lower : IsLowerHex label
  nanos : ∀ value, digitsValue asciiDigit 0 (label.drop 16) = some value → value < 10 ^ 9

/-- The order of labels is that of the times they denote. -/
theorem labelMillis_le_of_lt {first second : Text} (hfirst : IsTai64n first)
    (hsecond : IsTai64n second) (hlt : first < second) :
    labelMillis first ≤ labelMillis second := by
  -- Sixteen digits of seconds and eight of nanoseconds, both of fixed length.
  have hparts : ∀ label : Text, IsTai64n label →
      ∃ seconds nanos, digitsValue asciiDigit 0 (label.take 16) = some seconds ∧
        digitsValue asciiDigit 0 (label.drop 16) = some nanos ∧ nanos < 10 ^ 9 ∧
        labelMillis label = ((seconds : ℤ) - taiBase) * 1000 + (nanos / 1000000 : ℕ) := by
    intro label hlabel
    have hhex := hlabel.lower.isHex
    obtain ⟨seconds, hseconds⟩ := digitsValue_isSome
      (fun unit hunit => hhex unit (List.mem_of_mem_take hunit) : IsHex (label.take 16)) 0
    obtain ⟨nanos, hnanos⟩ := digitsValue_isSome
      (fun unit hunit => hhex unit (List.mem_of_mem_drop hunit) : IsHex (label.drop 16)) 0
    refine ⟨seconds, nanos, hseconds, hnanos, hlabel.nanos nanos hnanos, ?_⟩
    rw [labelMillis, hseconds, hnanos, Option.getD_some, Option.getD_some]
  obtain ⟨seconds, nanos, hseconds, hnanos, hbound, hmillis⟩ := hparts first hfirst
  obtain ⟨seconds', nanos', hseconds', hnanos', hbound', hmillis'⟩ := hparts second hsecond
  rw [hmillis, hmillis']
  have hfirstParts := List.take_append_drop 16 first
  have hsecondParts := List.take_append_drop 16 second
  have htakes : (first.take 16).length = (second.take 16).length := by
    rw [List.length_take, List.length_take, hfirst.length_eq, hsecond.length_eq]
  have hdrops : (first.drop 16).length = (second.drop 16).length := by
    rw [List.length_drop, List.length_drop, hfirst.length_eq, hsecond.length_eq]
  rcases lt_trichotomy (first.take 16) (second.take 16) with hless | heq | hgreater
  · -- Less than a second lies in the nanoseconds.
    have hlater : seconds < seconds' := digitsValue_lt_of_lt
      (fun unit hunit => hfirst.lower unit (List.mem_of_mem_take hunit))
      (fun unit hunit => hsecond.lower unit (List.mem_of_mem_take hunit)) htakes hless hseconds
      hseconds'
    omega
  · rw [heq, hseconds', Option.some.injEq] at hseconds
    have hrest : first.drop 16 < second.drop 16 := by
      rw [← hfirstParts, ← hsecondParts, heq] at hlt
      by_contra hnot
      rcases (not_lt.1 hnot).lt_or_eq with hgreater | hsame
      · exact absurd hlt (List.append_left_lt hgreater).not_gt
      · rw [hsame] at hlt
        exact lt_irrefl _ hlt
    have hlater : nanos < nanos' := digitsValue_lt_of_lt
      (fun unit hunit => hfirst.lower unit (List.mem_of_mem_drop hunit))
      (fun unit hunit => hsecond.lower unit (List.mem_of_mem_drop hunit)) hdrops hrest hnanos
      hnanos'
    omega
  · refine absurd hlt (not_lt.2 ?_)
    rw [← hfirstParts, ← hsecondParts]
    exact (append_lt_append hgreater htakes.symm _ _).le

/-- What can be computed for every element is computed for the list. -/
theorem mapM_eq_ok {ε α β : Type} {first : α → Except ε β} {second : α → β} {values : List α}
    (h : ∀ value ∈ values, first value = .ok (second value)) :
    values.mapM first = .ok (values.map second) := by
  induction values with
  | nil => rfl
  | cons value values ih =>
      rw [List.mapM_cons, h value List.mem_cons_self,
        ih fun other hother => h other (.tail _ hother)]
      rfl

/-- The table at a fixed offset. -/
theorem conversionTable_forOffsetMillis {jvm : Jvm} {offset : ℤ}
    (hzone : jvm.zone = .forOffsetMillis offset) :
    conversionTable jvm = .ok (conversionEntries.map fun entry =>
      (⟨midnightOf offset entry.1.toDays, .forOffsetMillis offset⟩, entry.2)) := by
  have hdates : ∀ entry ∈ conversionEntries, CalendarDate.ofDays entry.1.toDays = entry.1 := by
    decide
  refine mapM_eq_ok fun entry hentry => ?_
  rw [hzone, DateTime.ofDate, DateTimeZone.forOffsetMillis]
  simp only [if_pos (hdates entry hentry)]
  rfl

/-- After the last entry, its leap seconds count. -/
theorem leapSecond_of_isLate {jvm : Jvm} {offset : ℤ} {label : Text}
    (hzone : jvm.zone = .forOffsetMillis offset) (hlate : IsLate offset label) :
    leapSecond jvm ⟨labelMillis label, .utc⟩ = .ok 35 := by
  have hafter := hlate.after_last (⟨2012, 7, 1⟩, 35) rfl
  have hreverse : conversionEntries.reverse =
      (⟨2012, 7, 1⟩, 35) :: conversionEntries.reverse.tail := rfl
  rw [leapSecond, conversionTable_forOffsetMillis hzone]
  simp only [bind, Except.bind]
  rw [← List.map_reverse, hreverse, List.map_cons, List.find?_cons_of_pos]
  · rfl
  · rw [DateTime.isBefore, decide_eq_true_eq]
    dsimp only at hafter ⊢
    omega

/-- A part of a label is parsed as the number its digits denote. -/
theorem parseLong_substring (java : JavaRuntime) {label : Text} {first last : ℕ}
    (hhex : IsHex label) (hfirst : first < last) (hlast : last ≤ label.length) :
    ∃ value, digitsValue asciiDigit 0 ((label.take last).drop first) = some value ∧
      value < 16 ^ (last - first) ∧
      (value < 2 ^ 63 → ∃ digits, substring first last label = .ok digits ∧
        parseLong java digits = .ok (value : ℤ)) := by
  have hdigits : IsHex ((label.take last).drop first) :=
    fun unit hunit => hhex unit (List.mem_of_mem_take (List.mem_of_mem_drop hunit))
  have hlength : ((label.take last).drop first).length = last - first := by
    rw [List.length_drop, List.length_take, min_eq_left hlast]
  have hne : (label.take last).drop first ≠ [] := by
    rw [← List.length_pos_iff, hlength]
    omega
  obtain ⟨value, hvalue⟩ := digitsValue_isSome hdigits 0
  refine ⟨value, hvalue, ?_, fun hfits => ⟨_, ?_, parseLong_hex hdigits hne hvalue hfits⟩⟩
  · have hlt := digitsValue_lt hvalue
    rwa [hlength, Nat.zero_add, Nat.one_mul] at hlt
  · rw [substring, if_pos ⟨hfirst.le, hlast⟩]

/-- A label is decoded by subtracting the leap seconds, if a `long` of milliseconds does not
overflow. -/
theorem convertTai64ToTime_label (jvm : Jvm) {label : Text} (hlength : label.length = 24)
    (hhex : IsHex label) (hlow : -2 ^ 63 ≤ labelMillis label) (hhigh : labelMillis label < 2 ^ 63) :
    convertTai64ToTime jvm label = (leapSecond jvm ⟨labelMillis label, .utc⟩).map fun seconds =>
      ⟨labelMillis label - seconds * 1000, .utc⟩ := by
  obtain ⟨seconds, hseconds, _, hparse⟩ := parseLong_substring jvm.toJavaRuntime hhex
    (by decide : 0 < 16) (by omega)
  obtain ⟨nanos, hnanos, hbound, hparse'⟩ := parseLong_substring jvm.toJavaRuntime hhex
    (by decide : 16 < 24) (by omega)
  have hmillis : labelMillis label = ((seconds : ℤ) - taiBase) * 1000 + (nanos / 1000000 : ℕ) := by
    rw [List.drop_zero] at hseconds
    rw [List.take_of_length_le hlength.le] at hnanos
    rw [labelMillis, hseconds, hnanos, Option.getD_some, Option.getD_some]
  have hseconds' := hhigh
  rw [hmillis] at hseconds'
  unfold taiBase at hseconds'
  obtain ⟨digits, hsubstring, hlong⟩ := hparse (by omega)
  obtain ⟨digits', hsubstring', hlong'⟩ := hparse' (by omega)
  have hdifference : toLong ((seconds : ℤ) - taiBase) = seconds - taiBase := by
    unfold taiBase
    exact toLong_of_range (by omega) (by omega)
  have hnanoMillis : (nanos : ℤ).tdiv 1000000 = (nanos / 1000000 : ℕ) :=
    (Int.ofNat_tdiv nanos 1000000).symm
  have hfinal : toLong (toLong (toLong ((seconds : ℤ) - taiBase) * 1000) +
      (nanos : ℤ).tdiv 1000000) = labelMillis label := by
    rw [hdifference, toLong_add_toLong, hnanoMillis, ← hmillis]
    exact toLong_of_range hlow hhigh
  simp only [convertTai64ToTime, hsubstring, hsubstring', hlong, hlong', bind, Except.bind, hfinal]
  cases leapSecond jvm ⟨labelMillis label, .utc⟩ with
  | error throwable => rfl
  | ok extraSeconds =>
      refine congrArg Except.ok ?_
      simp only [DateTime.plusSeconds, neg_mul, ← sub_eq_add_neg]

/-- A late label is decoded by subtracting the leap seconds known last. -/
theorem convertTai64ToTime_late {jvm : Jvm} {offset : ℤ} {label : Text}
    (hzone : jvm.zone = .forOffsetMillis offset) (hlength : label.length = 24)
    (hhex : IsHex label) (hlate : IsLate offset label) :
    convertTai64ToTime jvm label = .ok ⟨labelMillis label - 35000, .utc⟩ := by
  rw [convertTai64ToTime_label jvm hlength hhex hlate.low hlate.high,
    leapSecond_of_isLate hzone hlate]
  rfl

end Barn.Hdfs
