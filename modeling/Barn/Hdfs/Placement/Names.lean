import Barn.Data.Decimal
import Barn.Data.Greedy
import Barn.Hdfs.Tai64

/-!
# Names on both sides

How the service is encoded in the name of a local directory and in the name of a file on HDFS:
`decodeServiceInfo` of `placement/local.scala`, and `targetName`, `getPlacedFileInfo`, `datePath`
and the choice of the last shipped file of `placement/hdfs.scala`. A name on HDFS is parsed with
greedy wildcards; `getPlacedFileInfo_targetName` says when the service, the host and the taistamp
are read back.
-/

namespace Barn.Hdfs

/-- `delim` -/
def delim : ℕ := 64

/-- `decodeServiceInfo` -/
def decodeServiceInfo (serviceDir : Dir) : Except BarnError LocalServiceInfo :=
  match split delim (getName serviceDir) with
  | [service, _category, host] => .ok ⟨service, host⟩
  | _ => .error (.invalidNameFormat (text "Failed to extract service info for " ++ serviceDir))

theorem decodeServiceInfo_web :
    decodeServiceInfo (text "/local/logs/web@main@node1") = .ok ⟨text "web", text "node1"⟩ := by
  decide

/-- `%0nd` of a format string. -/
def formatPadded (width : ℕ) (number : ℤ) : Text :=
  if number < 0 then text "-" ++ Decimal.padded (width - 1) number.natAbs
  else Decimal.padded width number.toNat

/-- `targetName` -/
def targetName (jvm : Jvm) (taistamp : Text) (serviceInfo : LocalServiceInfo) : Throws Text := do
  let time ← convertTai64ToTime jvm taistamp
  let date := time.toLocalDate
  return formatPadded 4 date.year ++ text "," ++ formatPadded 2 date.month ++ text "," ++
    formatPadded 2 date.day ++ text "," ++ serviceInfo.serviceName ++ text "," ++
    serviceInfo.hostName ++ text "," ++ taistamp ++ text ".seq"

/-- `datePath` -/
def datePath (baseHdfsDir : HdfsDir) (bucket : DateBucket) : HdfsDir :=
  childPath baseHdfsDir (formatPadded 4 bucket.year ++ text "/" ++ formatPadded 2 bucket.month ++
    text "-" ++ formatPadded 2 bucket.day)

/-- `targetTempDir` -/
def targetTempDir (baseHdfsDir : HdfsDir) : HdfsDir :=
  childPath baseHdfsDir (text "tmp")

/-- `dateBucket` -/
def dateBucket (base : DateTime) (daysBefore : ℕ) : DateBucket :=
  (base.minusDays daysBefore).toLocalDate

/-- The characters a dot of a regular expression does not match. -/
def lineTerminators : List ℕ := [10, 13, 133, 8232, 8233]

/-- A dot of a regular expression. -/
def dot (unit : ℕ) : Bool :=
  unit ∉ lineTerminators

/-- `.seq` at the end of the expression, where the dot stands for any character. -/
def seqSuffix : List (Greedy.Piece ℕ) :=
  [.single dot, .literal 115, .literal 101, .literal 113]

/-- `(.*),(.*),(.*).seq` -/
def namesMatcher : List (Greedy.Piece ℕ) :=
  .many dot :: .literal 44 :: .many dot :: .literal 44 :: .many dot :: seqSuffix

/-- `hdfsFileMatcher` -/
def hdfsFileMatcher : List (Greedy.Piece ℕ) :=
  .block 4 Decimal.isDigit :: .literal 44 :: .block 2 Decimal.isDigit :: .literal 44 ::
    .block 2 Decimal.isDigit :: .literal 44 :: namesMatcher

/-- `getPlacedFileInfo` -/
def getPlacedFileInfo (hdfsFile : HdfsFile) : Except BarnError PlacedFileInfo :=
  match Greedy.matchPieces hdfsFileMatcher hdfsFile.getName with
  | some [year, month, day, service, host, taistamp] =>
      .ok ⟨⟨Decimal.value year, Decimal.value month, Decimal.value day⟩, host, service, taistamp⟩
  | _ => .error (.invalidNameFormat (text "Invalid HdfsFile name format " ++ hdfsFile.toText))

/-- `matches` -/
def placedMatches (placedFile : PlacedFileInfo) (serviceInfo : LocalServiceInfo) : Bool :=
  placedFile.service = serviceInfo.serviceName ∧ placedFile.host = serviceInfo.hostName

/-- `filter` -/
def filterService (list : List PlacedFileInfo) (service : LocalServiceInfo) : List PlacedFileInfo :=
  list.filter fun placedFile => placedMatches placedFile service

/-- `logsForService` -/
def logsForService (serviceInfo : LocalServiceInfo) (hdfsFilesPlacedInfos : Listing) : Listing :=
  hdfsFilesPlacedInfos.map fun infos => filterService infos serviceInfo

/-- `getLastShippedTaistamp`: the last one after sorting by taistamp. -/
def getLastShippedTaistamp (hdfsFiles : List PlacedFileInfo) : Option Text :=
  ((hdfsFiles.map PlacedFileInfo.taistamp).insertionSort (· ≤ ·)).getLast?

/-- The text has no line terminators, as no dot would match them. -/
def OneLine (string : Text) : Prop :=
  string.all dot = true

instance (string : Text) : Decidable (OneLine string) :=
  inferInstanceAs (Decidable (string.all dot = true))

/-- Hexadecimal digits are no line terminators. -/
theorem OneLine.of_isHex {string : Text} (hhex : IsHex string) : OneLine string := by
  refine List.all_eq_true.2 fun unit hunit => ?_
  have hrange := asciiDigit_isSome_iff.1 (hhex unit hunit)
  simp only [dot, lineTerminators, List.mem_cons, List.not_mem_nil, or_false, not_or,
    decide_eq_true_eq]
  omega

/-- Hexadecimal digits are no commas. -/
theorem comma_notMem_of_isHex {string : Text} (hhex : IsHex string) : 44 ∉ string := by
  intro hmem
  exact absurd (hhex 44 hmem) (by decide)

/-- The names are split at the last two commas. -/
theorem matchPieces_namesMatcher {service host taistamp : Text} (hservice : OneLine service)
    (hhost : OneLine host) (hcomma : 44 ∉ host) (htaistamp : IsHex taistamp) :
    Greedy.matchPieces namesMatcher
      (service ++ 44 :: (host ++ 44 :: (taistamp ++ [46, 115, 101, 113]))) =
      some [service, host, taistamp] := by
  have hlast : Greedy.matchPieces (.many dot :: seqSuffix) (taistamp ++ [46, 115, 101, 113]) =
      some [taistamp] :=
    Greedy.matchPieces_many_minLength (OneLine.of_isHex htaistamp) (by decide) (by decide)
  have hnone : (taistamp ++ [46, 115, 101, 113]).count 44 = 0 := by
    rw [List.count_append, List.count_eq_zero_of_not_mem (comma_notMem_of_isHex htaistamp)]
    rfl
  have hmiddle : Greedy.matchPieces (.many dot :: .literal 44 :: .many dot :: seqSuffix)
      (host ++ 44 :: (taistamp ++ [46, 115, 101, 113])) = some [host, taistamp] :=
    Greedy.matchPieces_many_literal hhost hlast (by
      rw [hnone]
      exact Nat.zero_le _)
  refine Greedy.matchPieces_many_literal hservice hmiddle ?_
  rw [List.count_append, List.count_cons_self, hnone, List.count_eq_zero_of_not_mem hcomma]
  decide

/-- A date of four-digit year has fixed width. -/
theorem formatPadded_spec {width : ℕ} {number : ℤ} (hlow : 0 ≤ number)
    (hhigh : number < 10 ^ width) :
    (formatPadded width number).length = width ∧
      (formatPadded width number).all Decimal.isDigit = true ∧
      (Decimal.value (formatPadded width number) : ℤ) = number := by
  rw [formatPadded, if_neg (by omega)]
  refine ⟨Decimal.length_padded ?_, List.all_eq_true.2 fun unit hunit => ?_, ?_⟩
  · have hcast : (number.toNat : ℤ) < (10 ^ width : ℕ) := by
      push_cast
      omega
    exact_mod_cast hcast
  · exact Decimal.isDigit_of_mem_padded hunit
  · rw [Decimal.value_padded]
    omega

/-- The information in a well-formed name is read back. -/
theorem getPlacedFileInfo_of_parts {date : CalendarDate} {service host taistamp : Text}
    (parent : HdfsDir) (hyear : 0 ≤ date.year ∧ date.year ≤ 9999)
    (hmonth : 0 ≤ date.month ∧ date.month < 100) (hday : 0 ≤ date.day ∧ date.day < 100)
    (hservice : OneLine service) (hhost : OneLine host) (hcomma : 44 ∉ host)
    (htaistamp : IsHex taistamp) :
    getPlacedFileInfo ⟨parent, formatPadded 4 date.year ++ text "," ++ formatPadded 2 date.month ++
      text "," ++ formatPadded 2 date.day ++ text "," ++ service ++ text "," ++ host ++
      text "," ++ taistamp ++ text ".seq"⟩ = .ok ⟨date, host, service, taistamp⟩ := by
  have hy := formatPadded_spec hyear.1 (show date.year < 10 ^ 4 by omega)
  have hm := formatPadded_spec hmonth.1 (show date.month < 10 ^ 2 by omega)
  have hd := formatPadded_spec hday.1 (show date.day < 10 ^ 2 by omega)
  have hcommas : text "," = [44] := by decide
  have hsuffix : text ".seq" = [46, 115, 101, 113] := by decide
  have hmatch : Greedy.matchPieces hdfsFileMatcher (formatPadded 4 date.year ++ text "," ++
      formatPadded 2 date.month ++ text "," ++ formatPadded 2 date.day ++ text "," ++ service ++
      text "," ++ host ++ text "," ++ taistamp ++ text ".seq") =
      some [formatPadded 4 date.year, formatPadded 2 date.month, formatPadded 2 date.day,
        service, host, taistamp] := by
    rw [hcommas, hsuffix]
    simp only [List.append_assoc, List.cons_append, List.nil_append]
    rw [hdfsFileMatcher, Greedy.matchPieces_block hy.1 hy.2.1, Greedy.matchPieces_literal,
      Greedy.matchPieces_block hm.1 hm.2.1, Greedy.matchPieces_literal,
      Greedy.matchPieces_block hd.1 hd.2.1, Greedy.matchPieces_literal,
      matchPieces_namesMatcher hservice hhost hcomma htaistamp]
    rfl
  simp only [getPlacedFileInfo, hmatch, hy.2.2, hm.2.2, hd.2.2]

/-- The service, host and taistamp of a file that was placed are read back, when the host has no
comma. -/
theorem getPlacedFileInfo_targetName {jvm : Jvm} {taistamp name : Text} {info : LocalServiceInfo}
    (parent : HdfsDir) {time : DateTime} (htime : convertTai64ToTime jvm taistamp = .ok time)
    (hname : targetName jvm taistamp info = .ok name)
    (hyear : 0 ≤ time.toLocalDate.year ∧ time.toLocalDate.year ≤ 9999)
    (hservice : OneLine info.serviceName) (hhost : OneLine info.hostName)
    (hcomma : 44 ∉ info.hostName) (htaistamp : IsHex taistamp) :
    getPlacedFileInfo ⟨parent, name⟩ =
      .ok ⟨time.toLocalDate, info.hostName, info.serviceName, taistamp⟩ := by
  simp only [targetName, htime, bind, Except.bind, pure, Except.pure, Except.ok.injEq] at hname
  have hbounds : 1 ≤ time.toLocalDate.month ∧ time.toLocalDate.month ≤ 12 ∧
      1 ≤ time.toLocalDate.day ∧ time.toLocalDate.day ≤ 31 := by
    have hzone := convertTai64ToTime_zone htime
    rw [DateTime.toLocalDate, hzone]
    exact CalendarDate.ofDays_bounds _
  rw [← hname]
  exact getPlacedFileInfo_of_parts parent hyear (by omega) (by omega) hservice hhost hcomma
    htaistamp

/-- A name that can be read consists of the parts that are read. -/
theorem name_of_getPlacedFileInfo {hdfsFile : HdfsFile} {placed : PlacedFileInfo}
    (h : getPlacedFileInfo hdfsFile = .ok placed) :
    ∃ year month day unit, year.length = 4 ∧ year.all Decimal.isDigit = true ∧
      month.length = 2 ∧ day.length = 2 ∧
      hdfsFile.getName = year ++ 44 :: (month ++ 44 :: (day ++ 44 :: (placed.service ++
        44 :: (placed.host ++ 44 :: (placed.taistamp ++ [unit, 115, 101, 113]))))) := by
  unfold getPlacedFileInfo at h
  split at h
  · next year month day service host taistamp hmatch =>
      have hsplits := Greedy.splits_of_matchPieces hmatch
      rw [hdfsFileMatcher, Greedy.splits_block_cons] at hsplits
      obtain ⟨_, hname, hyear, hdigits, _, rfl, hsplits⟩ := hsplits
      rw [Greedy.splits_block_cons] at hsplits
      obtain ⟨_, rfl, hmonth, _, _, rfl, hsplits⟩ := hsplits
      rw [Greedy.splits_block_cons] at hsplits
      obtain ⟨_, rfl, hday, _, _, rfl, hsplits⟩ := hsplits
      rw [namesMatcher, Greedy.splits_many_cons] at hsplits
      obtain ⟨_, rfl, _, _, rfl, hsplits⟩ := hsplits
      rw [Greedy.splits_many_cons] at hsplits
      obtain ⟨_, rfl, _, _, rfl, hsplits⟩ := hsplits
      rw [Greedy.splits_many_cons] at hsplits
      obtain ⟨_, rfl, _, unit, _, rfl, _, _, rfl, _, rfl, _, rfl, rfl, _⟩ := hsplits
      rw [← Except.ok.inj h]
      exact ⟨year, month, day, unit, hyear, hdigits, hmonth, hday, hname⟩
  · simp at h

/-- A formatted number is at least as long as it has to be. -/
theorem le_length_formatPadded {width : ℕ} (hwidth : width ≠ 0) (number : ℤ) :
    width ≤ (formatPadded width number).length := by
  have hpositive := Nat.pos_of_ne_zero hwidth
  unfold formatPadded Decimal.padded
  split
  · rw [List.length_append, List.length_leftpad]
    have hminus : (text "-").length = 1 := by decide
    omega
  · rw [List.length_leftpad]
    omega

/-- A formatted number contains no comma. -/
theorem comma_notMem_formatPadded (width : ℕ) (number : ℤ) : 44 ∉ formatPadded width number := by
  have hdigits : ∀ width number, 44 ∉ Decimal.padded width number := fun width number hmem =>
    absurd (Decimal.isDigit_of_mem_padded hmem) (by decide)
  unfold formatPadded
  split
  · rw [List.mem_append, not_or]
    exact ⟨by decide, hdigits _ _⟩
  · exact hdigits _ _

/-- A name that was placed and reads back as one of the service carries its taistamp. -/
theorem taistamp_of_placedMatches {jvm : Jvm} {taistamp name : Text} {info : LocalServiceInfo}
    {parent : HdfsDir} {placed : PlacedFileInfo} (hname : targetName jvm taistamp info = .ok name)
    (hplaced : getPlacedFileInfo ⟨parent, name⟩ = .ok placed)
    (hmatches : placedMatches placed info = true) : placed.taistamp = taistamp := by
  rw [targetName, bind_eq_ok_iff] at hname
  obtain ⟨time, htime, hname⟩ := hname
  obtain ⟨year, month, day, unit, hyear, _, hmonth, hday, hparts⟩ :=
    name_of_getPlacedFileInfo hplaced
  have hbounds : 1 ≤ time.toLocalDate.month ∧ time.toLocalDate.month ≤ 12 ∧
      1 ≤ time.toLocalDate.day ∧ time.toLocalDate.day ≤ 31 := by
    rw [DateTime.toLocalDate, convertTai64ToTime_zone htime]
    exact CalendarDate.ofDays_bounds _
  have hm := formatPadded_spec (show 0 ≤ time.toLocalDate.month by omega)
    (show time.toLocalDate.month < 10 ^ 2 by omega)
  have hd := formatPadded_spec (show 0 ≤ time.toLocalDate.day by omega)
    (show time.toLocalDate.day < 10 ^ 2 by omega)
  rw [placedMatches, decide_eq_true_eq] at hmatches
  have hcommas : text "," = [44] := by decide
  have hsuffix : text ".seq" = [46, 115, 101, 113] := by decide
  have hname := ((Except.ok.inj hname).trans hparts).symm
  simp only [hcommas, hsuffix, List.append_assoc, List.cons_append, List.nil_append] at hname
  -- The year is read up to the first comma, which can only be the one after it.
  have hyears : year = formatPadded 4 time.toLocalDate.year := by
    have hlong := le_length_formatPadded (by decide : 4 ≠ 0) time.toLocalDate.year
    rcases List.append_eq_append_iff.1 hname with ⟨rest, hformat, hrest⟩ | ⟨rest, hread, hrest⟩
    · cases rest with
      | nil => rw [hformat, List.append_nil]
      | cons first rest =>
          rw [List.cons_append, List.cons.injEq] at hrest
          refine absurd ?_ (comma_notMem_formatPadded 4 time.toLocalDate.year)
          rw [hformat, ← hrest.1]
          simp
    · cases rest with
      | nil => rw [hread, List.append_nil]
      | cons first rest =>
          rw [hread, List.length_append, List.length_cons] at hyear
          omega
  subst hyears
  rw [List.append_cancel_left_eq, List.cons.injEq] at hname
  obtain ⟨_, hname⟩ := List.append_inj hname.2 (hmonth.trans hm.1.symm)
  rw [List.cons.injEq] at hname
  obtain ⟨_, hname⟩ := List.append_inj hname.2 (hday.trans hd.1.symm)
  rw [List.cons.injEq, hmatches.1, List.append_cancel_left_eq, List.cons.injEq, hmatches.2,
    List.append_cancel_left_eq, List.cons.injEq] at hname
  exact (List.append_inj' hname.2.2.2 rfl).1

/-- The last shipped taistamp is the greatest. -/
theorem getLastShippedTaistamp_spec {hdfsFiles : List PlacedFileInfo} {taistamp : Text}
    (h : getLastShippedTaistamp hdfsFiles = some taistamp) :
    (∃ placed ∈ hdfsFiles, placed.taistamp = taistamp) ∧
      ∀ placed ∈ hdfsFiles, placed.taistamp ≤ taistamp := by
  obtain ⟨before, hsorted⟩ := List.getLast?_eq_some_iff.1 h
  have hmem : ∀ other, other ∈ hdfsFiles.map PlacedFileInfo.taistamp ↔
      other ∈ before ++ [taistamp] := by
    intro other
    rw [← hsorted, List.mem_insertionSort]
  have htotal : Std.Total fun first second : Text => first ≤ second := ⟨le_total⟩
  have htrans : IsTrans Text fun first second => first ≤ second := ⟨fun _ _ _ => le_trans⟩
  have hpairwise := List.pairwise_insertionSort (fun first second : Text => first ≤ second)
    (hdfsFiles.map PlacedFileInfo.taistamp)
  rw [hsorted, List.pairwise_append] at hpairwise
  constructor
  · have hlast := (hmem taistamp).2 (by simp)
    rw [List.mem_map] at hlast
    exact hlast
  · intro placed hplaced
    have hother := (hmem placed.taistamp).1 (List.mem_map_of_mem hplaced)
    rcases List.mem_append.1 hother with hbefore | hlast
    · exact hpairwise.2.2 _ hbefore _ (by simp)
    · exact (List.mem_singleton.1 hlast).le

/-- There is one as soon as something was shipped. -/
theorem getLastShippedTaistamp_isSome {hdfsFiles : List PlacedFileInfo} (h : hdfsFiles ≠ []) :
    ∃ taistamp, getLastShippedTaistamp hdfsFiles = some taistamp := by
  refine Option.isSome_iff_exists.1 (List.getLast?_isSome.2 fun hnil => h ?_)
  have hlength := congrArg List.length hnil
  rw [List.length_insertionSort, List.length_map] at hlength
  exact List.length_eq_zero_iff.1 hlength

end Barn.Hdfs
