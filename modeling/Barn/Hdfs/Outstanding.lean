import Barn.Hdfs.Days
import Barn.Hdfs.LabelOrder
import Barn.Hdfs.Selection

/-!
# Outstanding files

`outstandingFiles` drops files from the beginning of a list; `outstandingFiles_filter` says when
this amounts to dropping the shipped and the old ones among all of them. It depends on the order of
labels being that of the times they denote.
-/

namespace Barn.Hdfs

open Interaction StepTable

/-- A label as svlogd writes it, of a time from 1970 on. -/
structure IsLabel (label : Text) : Prop extends IsTai64n label where
  seconds : ∀ value, digitsValue asciiDigit 0 (label.take 16) = some value →
    2 ^ 62 ≤ value ∧ value ≤ 2 ^ 62 + 2 ^ 40

/-- A file that svlogd has finished, with such a label. -/
structure IsRotated (file : File) : Prop where
  name : IsSvlogdName file.getName
  label : IsLabel file.taistamp

/-- The file is later than the last taistamp and not dated before the limit. -/
def isOutstanding (jvm : Jvm) (lastTaistamp : Option Text) (limit : DateTime) (file : File) :
    Bool :=
  (lastTaistamp.all fun taistamp => taistamp < file.taistamp) && !datedBefore jvm limit file

section Names

variable {jvm : Jvm} {offset : ℤ} {file first second : File}

/-- The order of names is that of labels. -/
theorem IsRotated.taistamp_le (hfirst : IsRotated first) (hsecond : IsRotated second)
    (hle : first.getName ≤ second.getName) : first.taistamp ≤ second.taistamp := by
  obtain ⟨label, suffix, hname, hlength, _, hsuffix⟩ := hfirst.name
  obtain ⟨label', suffix', hname', hlength', _, hsuffix'⟩ := hsecond.name
  rw [taistamp_of_name hname hsuffix, taistamp_of_name hname' hsuffix']
  by_contra hnot
  have hless := append_lt_append (not_le.1 hnot) (hlength'.trans hlength.symm) suffix' suffix
  rw [hname, hname'] at hle
  exact absurd (List.cons_lt_cons_iff.2 (.inr ⟨rfl, hless⟩)) (not_lt.2 hle)

theorem IsLabel.isHexLabel {label : Text} (h : IsLabel label) : IsHexLabel label :=
  ⟨h.length_eq, h.lower.isHex, h.seconds, h.nanos⟩

/-- The time of a file that svlogd has named. -/
theorem fileTime_of_isLabel (hzone : jvm.zone.TellsLeapDates offset) (h : IsLabel file.taistamp) :
    fileTime jvm file = .ok ⟨labelMillis file.taistamp -
      1000 * stepAt (leapThresholds jvm) (labelMillis file.taistamp), .utc⟩ :=
  convertTai64ToTime_of_isHexLabel hzone h.isHexLabel

end Names

section Midnights

variable {jvm : Jvm} {offset : ℤ}

/-- A midnight lies between what is subtracted before and after a date of the table only on the
first date of the table. -/
theorem midnight_clear (hzone : jvm.zone = .forOffsetMillis offset) {day : ℤ}
    (hday : day ≠ CalendarDate.toDays ⟨1972, 1, 1⟩) (before : List (ℤ × ℤ)) (entry : ℤ × ℤ)
    (after : List (ℤ × ℤ)) (hsplit : leapThresholds jvm = before ++ entry :: after) :
    ¬(entry.1 - 1000 * entry.2 < midnightOf offset day ∧
      midnightOf offset day ≤ entry.1 - 1000 * lastStep before) := by
  have hbounds : ∀ entry ∈ conversionEntries, 10 ≤ entry.2 ∧ entry.2 ≤ 35 := by decide
  have hthreshold : ∀ entry ∈ leapThresholds jvm,
      ∃ day, entry.1 = midnightOf offset day ∧ 10 ≤ entry.2 ∧ entry.2 ≤ 35 := by
    intro entry hentry
    rw [leapThresholds_forOffsetMillis hzone] at hentry
    obtain ⟨listed, hlisted, rfl⟩ := List.mem_map.1 hentry
    exact ⟨_, rfl, hbounds listed hlisted⟩
  rintro ⟨hlow, hhigh⟩
  rcases List.eq_nil_or_concat' before with rfl | ⟨earlier, last, rfl⟩
  · have hentries : conversionEntries = (⟨1972, 1, 1⟩, 10) :: conversionEntries.tail := rfl
    rw [leapThresholds_forOffsetMillis hzone, hentries, List.map_cons, List.nil_append] at hsplit
    obtain ⟨rfl, _⟩ := List.cons.inj hsplit
    rw [lastStep_nil] at hhigh
    unfold midnightOf millisPerDay at hlow hhigh
    dsimp only at hlow hhigh
    omega
  · -- Before any other date at least ten seconds and at most 35 are subtracted.
    obtain ⟨_, _, hlast, _⟩ := hthreshold last (by rw [hsplit]; simp)
    obtain ⟨start, hstart, _, hentry⟩ := hthreshold entry (by rw [hsplit]; simp)
    rw [lastStep_concat, hstart] at hhigh
    rw [hstart] at hlow
    unfold midnightOf millisPerDay at hlow hhigh
    omega

end Midnights

section Filter

variable {jvm : Jvm} {offset millis : ℤ} {files : List File} {lastTaistamp : Option Text}
  {limit : DateTime} {file first second : File}

/-- Whether a file is settled. -/
theorem isSettled_eq (hdated : Dated jvm file) :
    isSettled jvm lastTaistamp limit file =
      .ok (!isOutstanding jvm lastTaistamp limit file) := by
  obtain ⟨time, htime⟩ := hdated
  have hbefore : datedBefore jvm limit file = time.isBefore limit := by
    rw [datedBefore, htime]
  rw [fileTime] at htime
  rw [isOutstanding, hbefore]
  simp only [isSettled, htime]
  cases lastTaistamp with
  | none => simp [bind, Except.bind, pure, Except.pure]
  | some taistamp =>
      by_cases hle : file.taistamp ≤ taistamp
      · have hnot : ¬taistamp < file.taistamp := not_lt.2 hle
        rw [File.taistamp] at hle hnot
        simp [File.taistamp, hle, hnot, pure, Except.pure]
      · have hless : taistamp < file.taistamp := not_le.1 hle
        rw [File.taistamp] at hle hless
        simp [File.taistamp, hle, hless, bind, Except.bind, pure, Except.pure]

/-- A file that is not too old is followed by such files, unless the limit is the first date of the
table. -/
theorem datedBefore_closed (hzone : jvm.zone = .forOffsetMillis offset) {day : ℤ}
    (hlimit : limit.millis = midnightOf offset day)
    (hday : day ≠ CalendarDate.toDays ⟨1972, 1, 1⟩) (hfirst : IsRotated first)
    (hsecond : IsRotated second) (hle : first.getName ≤ second.getName)
    (hold : datedBefore jvm limit second) : datedBefore jvm limit first := by
  have htells : jvm.zone.TellsLeapDates offset := by
    rw [hzone]
    exact tellsLeapDates_forOffsetMillis offset
  have hmillis : labelMillis first.taistamp ≤ labelMillis second.taistamp := by
    rcases (hfirst.taistamp_le hsecond hle).lt_or_eq with hless | hequal
    · exact labelMillis_le_of_lt hfirst.label.toIsTai64n hsecond.label.toIsTai64n hless
    · rw [hequal]
  simp only [datedBefore, fileTime_of_isLabel htells hsecond.label,
    fileTime_of_isLabel htells hfirst.label, DateTime.isBefore, decide_eq_true_eq] at hold ⊢
  by_contra hnot
  rw [hlimit] at hold hnot
  have hlater := (spaced_leapThresholds htells).sub_stepAt_mono hmillis
    (midnight_clear hzone hday) (not_lt.1 hnot)
  exact absurd hold (not_lt.2 hlater)

/-- What `outstandingFiles` selects of files that svlogd has finished, except on 1972-01-05. -/
theorem outstandingFiles_filter (hzone : jvm.zone = .forOffsetMillis offset)
    (hsorted : files.Pairwise fun first second => first.getName ≤ second.getName)
    (hfiles : ∀ file ∈ files, IsRotated file)
    (hday : DateTime.toLocalDate ⟨millis, jvm.zone⟩ ≠ ⟨1972, 1, 5⟩)
    (hlimit : limit = (DateTime.minusDays (maxLookBackDays + 1) ⟨millis, jvm.zone⟩).toDateMidnight)
    {world final : World} {result : Attempt (List File)}
    (h : execute machine [.reads millis] (outstandingFiles jvm files lastTaistamp) world =
      some (result, final)) :
    result = outstandingOf (.ok (files.filter (isOutstanding jvm lastTaistamp limit))) ∧
      (result = .error (.left (.nothingToSync (text "No local files left to sync."))) ↔
        files.filter (isOutstanding jvm lastTaistamp limit) = []) ∧
      ((∀ taistamp, lastTaistamp = some taistamp → ∀ file ∈ files, taistamp < file.taistamp) →
        execute machine [.reads millis] (outstandingFiles jvm files none) world =
          some (result, final)) := by
  have htells : jvm.zone.TellsLeapDates offset := by
    rw [hzone]
    exact tellsLeapDates_forOffsetMillis offset
  have hmidnight : oldestMidnight ⟨millis, jvm.zone⟩ = limit := by
    rw [hlimit, hzone]
    refine congrArg (fun millis => DateTime.toDateMidnight ⟨millis, .forOffsetMillis offset⟩) ?_
    show millis - 3 * millisPerDay - 1 * millisPerDay = millis - 4 * millisPerDay
    omega
  have hlimit' : limit.millis = midnightOf offset (dayAt offset millis - 4) := by
    rw [← hmidnight, hzone, oldestMidnight_millis]
  have hday' : dayAt offset millis - 4 ≠ CalendarDate.toDays ⟨1972, 1, 1⟩ := by
    intro hequal
    refine hday ?_
    have hdays : dayAt offset millis = CalendarDate.toDays ⟨1972, 1, 1⟩ + 4 := by omega
    rw [hzone]
    show CalendarDate.ofDays (dayAt offset millis) = _
    rw [hdays]
    decide
  have hselects : ∀ last, outstandingAt jvm files last ⟨millis, jvm.zone⟩ =
      outstandingOf (.ok (files.filter (isOutstanding jvm last limit))) := by
    intro last
    have hsettled : ∀ file ∈ files,
        isSettled jvm last limit file = .ok (!isOutstanding jvm last limit file) :=
      fun file hfile => isSettled_eq ⟨_, fileTime_of_isLabel htells (hfiles file hfile).label⟩
    -- `dropWhile` is a filter when what it drops is closed downwards: shipped labels are by the
    -- order of the names, old ones by the table, which is monotone away from the excepted day.
    have hclosed : files.Pairwise fun earlier later =>
        !isOutstanding jvm last limit later → !isOutstanding jvm last limit earlier := by
      refine hsorted.imp_of_mem fun {earlier later} hearlier hlater hle hsettled => ?_
      have hfirst := hfiles earlier hearlier
      have hsecond := hfiles later hlater
      have hlabels := hfirst.taistamp_le hsecond hle
      rw [isOutstanding, Bool.not_and, Bool.not_not, Bool.or_eq_true] at hsettled ⊢
      rcases hsettled with hshipped | hold
      · refine .inl ?_
        cases last with
        | none => simp at hshipped
        | some taistamp => simpa using hlabels.trans (by simpa using hshipped)
      · exact .inr (datedBefore_closed hzone hlimit' hday' hfirst hsecond hle hold)
    have hdrop := dropWhileThrows_eq_filter hsettled hclosed
    simp only [Bool.not_not] at hdrop
    rw [outstandingAt, hmidnight, hdrop]
  obtain ⟨_, htime, hclock, hfinal, hresult⟩ := execute_outstandingFiles_iff.1 h
  obtain rfl := Outcome.reads.inj (List.cons.inj htime).1
  rw [hselects] at hresult
  refine ⟨hresult, ?_, fun hbelow => ?_⟩
  · rw [hresult]
    cases files.filter (isOutstanding jvm lastTaistamp limit) with
    | nil => simp [outstandingOf]
    | cons file rest => simp [outstandingOf]
  · -- Every label is later than the one shipped last, so the limit alone decides, as with none.
    refine execute_outstandingFiles_iff.2 ⟨millis, rfl, hclock, hfinal, ?_⟩
    rw [hresult, hselects]
    refine congrArg (fun selected => outstandingOf (.ok selected)) (List.filter_congr ?_)
    intro file hfile
    cases lastTaistamp with
    | none => rfl
    | some taistamp => simp [isOutstanding, hbelow taistamp rfl file hfile]

/-- A file in the directory of a service. -/
def rotatedFile (label : Text) : File :=
  ⟨text "/local/logs/web@main@node1", text "@" ++ label ++ text ".s", false, 10⟩

/-- Such a file is one that svlogd has finished. -/
theorem isRotated_rotatedFile {label : Text} (h : IsLabel label) :
    IsRotated (rotatedFile label) := by
  have hname : (rotatedFile label).getName = 64 :: (label ++ text ".s") := by
    rw [rotatedFile, List.append_assoc]
    rfl
  refine ⟨⟨label, text ".s", hname, h.length_eq, h.lower.isHex, rfl⟩, ?_⟩
  rwa [taistamp_of_name hname rfl]

/-- A label is checked by evaluating its parts. -/
theorem isLabel_of_values {label : Text} (seconds nanos : ℕ) (hlength : label.length = 24)
    (hlower : ∀ unit ∈ label, 48 ≤ unit ∧ unit ≤ 57 ∨ 97 ≤ unit ∧ unit ≤ 102)
    (hseconds : digitsValue asciiDigit 0 (label.take 16) = some seconds)
    (hnanos : digitsValue asciiDigit 0 (label.drop 16) = some nanos)
    (hrange : 2 ^ 62 ≤ seconds ∧ seconds ≤ 2 ^ 62 + 2 ^ 40) (hbound : nanos < 10 ^ 9) :
    IsLabel label where
  length_eq := hlength
  lower := hlower
  nanos := fun value hvalue => by
    rw [hnanos, Option.some.injEq] at hvalue
    omega
  seconds := fun value hvalue => by
    rw [hseconds, Option.some.injEq] at hvalue
    omega

/-- Labels with the numbers they are made of: one of two weeks before the others, which are of the
same day. -/
def dayLabels : List (Text × ℕ) :=
  [(text "4000000053618e8000000000", 4611686019826290304),
    (text "4000000053724e0000000000", 4611686019827387904),
    (text "4000000053724e0100000000", 4611686019827387905),
    (text "4000000053724e8000000000", 4611686019827388032)]

/-- Their files. -/
def dayFiles : List File :=
  dayLabels.map fun label => rotatedFile label.1

theorem isRotated_dayFiles : ∀ file ∈ dayFiles, IsRotated file := by
  have hall : ∀ label ∈ dayLabels, label.1.length = 24 ∧
      (∀ unit ∈ label.1, 48 ≤ unit ∧ unit ≤ 57 ∨ 97 ≤ unit ∧ unit ≤ 102) ∧
      digitsValue asciiDigit 0 (label.1.take 16) = some label.2 ∧
      digitsValue asciiDigit 0 (label.1.drop 16) = some 0 ∧
      2 ^ 62 ≤ label.2 ∧ label.2 ≤ 2 ^ 62 + 2 ^ 40 := by decide
  intro file hfile
  obtain ⟨label, hlabel, rfl⟩ := List.mem_map.1 hfile
  obtain ⟨hlength, hlower, hseconds, hnanos, hrange⟩ := hall label hlabel
  exact isRotated_rotatedFile
    (isLabel_of_values label.2 0 hlength hlower hseconds hnanos hrange (by decide))

/-- Of these files those that are later than the last one that was shipped are selected. -/
theorem outstandingFiles_filter_today : ∃ result final,
    execute machine [.reads 1400000000000] (outstandingFiles .utc dayFiles
      (some (text "4000000053724e0000000000"))) (.initial 0) = some (result, final) ∧
    result = .ok (dayFiles.drop 2) := by
  obtain ⟨result, final, hexecute⟩ : ∃ result final,
      execute machine [.reads 1400000000000] (outstandingFiles .utc dayFiles
        (some (text "4000000053724e0000000000"))) (.initial 0) = some (result, final) :=
    ⟨_, _, execute_outstandingFiles_iff.2 ⟨1400000000000, rfl, by decide, rfl, rfl⟩⟩
  refine ⟨result, final, hexecute, ?_⟩
  have hselected := (outstandingFiles_filter (show Jvm.utc.zone = .forOffsetMillis 0 from rfl)
    (by decide) isRotated_dayFiles (by decide) rfl hexecute).1
  refine hselected.trans ?_
  decide

/-- Files of the first date of the table, a millisecond apart. -/
def stepFiles : List File :=
  [rotatedFile (text "4000000003c2670000000000"), rotatedFile (text "4000000003c26700000f4240")]

/-- Files with labels in mixed case, in the order of their names. -/
def mixedFiles : List File :=
  [rotatedFile (text "40000000F000000000000000"), rotatedFile (text "40000000a000000000000000")]

theorem isRotated_stepFiles : ∀ file ∈ stepFiles, IsRotated file := by
  have hlabel : IsLabel (text "4000000003c2670000000000") :=
    isLabel_of_values 4611686018490459904 0 rfl (by decide) (by decide)
      (by decide) (by decide) (by decide)
  have hlabel' : IsLabel (text "4000000003c26700000f4240") :=
    isLabel_of_values 4611686018490459904 1000000 rfl (by decide) (by decide)
      (by decide) (by decide) (by decide)
  intro file hfile
  rcases List.mem_cons.1 hfile with rfl | hsecond
  · exact isRotated_rotatedFile hlabel
  · rw [List.mem_singleton.1 hsecond]
    exact isRotated_rotatedFile hlabel'

/-- On 1972-01-05, and with labels in mixed case, everything is selected, although the second file
is too old. -/
theorem outstandingFiles_keeps_old :
    ((∀ file ∈ stepFiles, IsRotated file) ∧
      (stepFiles.Pairwise fun first second => first.getName ≤ second.getName) ∧
      (execute machine [.reads 63460800000] (outstandingFiles .utc stepFiles none)
        (.initial 0)).map Prod.fst = some (.ok stepFiles) ∧
      stepFiles.filter (isOutstanding .utc none
        (DateTime.minusDays (maxLookBackDays + 1) ⟨63460800000, .utc⟩).toDateMidnight) =
          stepFiles.take 1) ∧
    ((∀ file ∈ mixedFiles, IsHex file.taistamp ∧ file.taistamp.length = 24) ∧
      (mixedFiles.Pairwise fun first second => first.getName ≤ second.getName) ∧
      (execute machine [.reads 3500000000000] (outstandingFiles .utc mixedFiles none)
        (.initial 0)).map Prod.fst = some (.ok mixedFiles) ∧
      mixedFiles.filter (isOutstanding .utc none
        (DateTime.minusDays (maxLookBackDays + 1) ⟨3500000000000, .utc⟩).toDateMidnight) =
          mixedFiles.take 1) := by
  refine ⟨⟨isRotated_stepFiles, ?_⟩, ?_⟩
  · decide
  · decide

end Filter

end Barn.Hdfs
