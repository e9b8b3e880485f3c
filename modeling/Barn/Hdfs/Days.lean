import Barn.Hdfs.Placement.Hdfs
import Barn.Hdfs.Main
import Barn.Hdfs.Search

/-!
# Day directories

In a time zone of fixed offset the directories on HDFS are numbered by days: `dayDir` is injective,
and the stream of directories to search goes back day by day (`targetDir_day`) and ends where
`targetDir_end` says.
-/

namespace Barn.Hdfs

/-- Formatted numbers are told apart. -/
theorem formatPadded_injective (width : ℕ) : Function.Injective (formatPadded width) := by
  have hminus : ∀ width number rest, Decimal.padded width number ≠ text "-" ++ rest := by
    intro width number rest h
    have hmem : (45 : ℕ) ∈ Decimal.padded width number := by
      rw [h]
      exact List.mem_cons_self
    exact absurd (Decimal.isDigit_of_mem_padded hmem) (by decide)
  intro first second h
  unfold formatPadded at h
  split at h
  · next hfirst =>
      split at h
      · next hsecond =>
          have heq := Decimal.padded_injective _ (List.append_cancel_left h)
          omega
      · exact absurd h.symm (hminus _ _ _)
  · next hfirst =>
      split at h
      · exact absurd h (hminus _ _ _)
      · next hsecond =>
          have heq := Decimal.padded_injective _ h
          omega

/-- The paths of two days are different. -/
theorem datePath_ofDays_injective (baseHdfsDir : HdfsDir) :
    Function.Injective fun day => datePath baseHdfsDir (.ofDays day) := by
  intro first second h
  have hfirst := CalendarDate.ofDays_bounds first
  have hsecond := CalendarDate.ofDays_bounds second
  have hlength : ∀ number : ℤ, 1 ≤ number ∧ number ≤ 31 →
      (formatPadded 2 number).length = 2 :=
    fun number hnumber =>
      (formatPadded_spec (by omega) (show number < 10 ^ 2 by omega)).1
  simp only [datePath, childPath, List.append_cancel_left_eq] at h
  obtain ⟨h, hday⟩ := List.append_inj' h (by
    rw [hlength _ (by omega), hlength _ (by omega)])
  obtain ⟨h, _⟩ := List.append_inj' h rfl
  obtain ⟨h, hmonth⟩ := List.append_inj' h (by
    rw [hlength _ (by omega), hlength _ (by omega)])
  obtain ⟨hyear, _⟩ := List.append_inj' h rfl
  refine CalendarDate.ofDays_injective ?_
  rw [show CalendarDate.ofDays first = ⟨(CalendarDate.ofDays first).year,
    (CalendarDate.ofDays first).month, (CalendarDate.ofDays first).day⟩ from rfl,
    formatPadded_injective 4 hyear, formatPadded_injective 2 hmonth, formatPadded_injective 2 hday]

namespace Setting

variable {s : Setting} {offset : ℤ}

/-- The directory on HDFS for a day. -/
def dayDir (s : Setting) (day : ℤ) : HdfsDir :=
  datePath s.barnConf.hdfsLogDir (.ofDays day)

/-- Different days have different directories. -/
theorem dayDir_injective (s : Setting) : Function.Injective s.dayDir :=
  datePath_ofDays_injective s.barnConf.hdfsLogDir

/-- The date some days before a time. -/
theorem dateBucket_day {base : DateTime} (hbase : base.zone = .forOffsetMillis offset)
    (daysBefore : ℕ) :
    dateBucket base daysBefore = .ofDays (dayAt offset base.millis - daysBefore) := by
  unfold dateBucket DateTime.minusDays DateTime.toLocalDate
  split
  · next hzero =>
      rw [hzero, hbase, Nat.cast_zero, sub_zero]
      rfl
  · rw [hbase]
    simp only [DateTimeZone.forOffsetMillis, dayAt]
    congr 1
    unfold millisPerDay
    omega

/-- The directory for a time is that of its day. -/
theorem hdfsDir_day {base : DateTime} (hbase : base.zone = .forOffsetMillis offset) :
    s.hdfsDir base = s.dayDir (dayAt offset base.millis) := by
  rw [hdfsDir, dayDir, dateBucket_day hbase, Nat.cast_zero, sub_zero]

/-- The day directories are not the directory for temporary files. -/
theorem dayDir_ne_tempDir (s : Setting) (day : ℤ) : s.dayDir day ≠ s.tempDir := by
  have hne := s.hdfsDir_ne_tempDir ⟨midnightOf 0 day, .utc⟩
  have hzone : (⟨midnightOf 0 day, .utc⟩ : DateTime).zone = .forOffsetMillis 0 := rfl
  rwa [hdfsDir_day hzone, dayAt_midnightOf] at hne

end Setting

section Stream

variable {jvm : Jvm} {offset : ℤ} {base lowerBound : DateTime} {baseHdfsDir : HdfsDir}
  {daysBefore : ℕ}

/-- The midnight of a date at a fixed offset. -/
theorem ofDate_ofDays (offset day : ℤ) :
    DateTime.ofDate (.forOffsetMillis offset) (.ofDays day) =
      .ok ⟨midnightOf offset day, .forOffsetMillis offset⟩ := by
  simp [DateTime.ofDate, DateTimeZone.forOffsetMillis, Except.map]

/-- The directories that are searched go back day by day. -/
theorem targetDir_day (hzone : jvm.zone = .forOffsetMillis offset)
    (hbase : base.zone = jvm.zone) {path : HdfsDir}
    (h : targetDir jvm base baseHdfsDir lowerBound daysBefore = .ok (some path)) :
    path = datePath baseHdfsDir (.ofDays (dayAt offset base.millis - daysBefore)) := by
  rw [hzone] at hbase
  cases daysBefore with
  | zero =>
      rw [← Option.some.inj (Except.ok.inj h), Setting.dateBucket_day hbase]
  | succ days =>
      rw [targetDir, bind_eq_ok_iff] at h
      obtain ⟨midnight, _, h⟩ := h
      rw [← Setting.dateBucket_day hbase]
      split at h
      · exact (Option.some.inj (Except.ok.inj h)).symm
      · simp [pure, Except.pure] at h

/-- The directories that are searched end at a day that is not after the midnight before the lower
bound's day. -/
theorem targetDir_end (hzone : jvm.zone = .forOffsetMillis offset)
    (hbase : base.zone = jvm.zone)
    (h : targetDir jvm base baseHdfsDir lowerBound daysBefore = .ok none) :
    midnightOf offset (dayAt offset base.millis - daysBefore) ≤
      (lowerBound.minusDays 1).toDateMidnight.millis := by
  rw [hzone] at hbase
  cases daysBefore with
  | zero => simp [targetDir, pure, Except.pure] at h
  | succ days =>
      rw [targetDir, hzone, Setting.dateBucket_day hbase, ofDate_ofDays, bind_eq_ok_iff] at h
      obtain ⟨midnight, hmidnight, h⟩ := h
      rw [← Except.ok.inj hmidnight] at h
      split at h
      · simp [pure, Except.pure] at h
      · next hafter => simpa [DateTime.isAfter] using hafter

/-- The midnight of the day before. -/
theorem toDateMidnight_dayBefore {time : DateTime} (htime : time.zone = .forOffsetMillis offset) :
    (time.minusDays 1).toDateMidnight.millis =
      midnightOf offset (dayAt offset time.millis - 1) := by
  rw [DateTime.minusDays, if_neg one_ne_zero]
  simp only [DateTime.toDateMidnight, htime, DateTimeZone.forOffsetMillis, Nat.cast_one, one_mul]
  unfold midnightOf dayAt millisPerDay
  omega

/-- The midnight before which files are too old is that of the day four days ago. -/
theorem oldestMidnight_millis (millis : ℤ) :
    (oldestMidnight ⟨millis, .forOffsetMillis offset⟩).millis =
      midnightOf offset (dayAt offset millis - 4) := by
  simp only [oldestMidnight, DateTime.minusDays, DateTime.toDateMidnight, maxLookBackDays,
    DateTimeZone.forOffsetMillis]
  norm_num [dayAt, midnightOf, millisPerDay]
  omega

/-- The lower bound of the search when the local files are old. -/
theorem lookBackMidnight_millis (millis : ℤ) :
    ((DateTime.minusDays maxLookBackDays ⟨millis, .forOffsetMillis offset⟩).minusDays
      1).toDateMidnight.millis = midnightOf offset (dayAt offset millis - 4) :=
  oldestMidnight_millis millis

/-- A later entry of the stream, or its end. -/
theorem targetDir_succ (hzone : jvm.zone = .forOffsetMillis offset) (hbase : base.zone = jvm.zone)
    (days : ℕ) :
    targetDir jvm base baseHdfsDir lowerBound (days + 1) =
      .ok (if (lowerBound.minusDays 1).toDateMidnight.millis <
          midnightOf offset (dayAt offset base.millis - (days + 1 : ℕ)) then
        some (datePath baseHdfsDir (.ofDays (dayAt offset base.millis - (days + 1 : ℕ))))
      else none) := by
  rw [hzone] at hbase
  rw [targetDir, hzone, Setting.dateBucket_day hbase, ofDate_ofDays]
  simp only [bind, Except.bind, DateTime.isAfter, decide_eq_true_eq]
  split <;> rfl

/-- The directories that are searched, as a list: they end before the day of the midnight that is
given by the lower bound. -/
theorem targetDirs_eq (baseHdfsDir : HdfsDir) (hzone : jvm.zone = .forOffsetMillis offset)
    (hbase : base.zone = jvm.zone) {limit : ℤ}
    (hlimit : (lowerBound.minusDays 1).toDateMidnight.millis = limit) {count : ℕ}
    (hcount : (count : ℤ) = max 1 (dayAt offset base.millis - dayAt offset limit)) :
    targetDirs jvm base baseHdfsDir lowerBound = .ok ((List.range count).map fun index : ℕ =>
        datePath baseHdfsDir (.ofDays (dayAt offset base.millis - index))) ∧
      targetDir jvm base baseHdfsDir lowerBound count = .ok none := by
  have hentries : ∀ index < count, targetDir jvm base baseHdfsDir lowerBound (0 + index) =
      .ok (some (datePath baseHdfsDir (.ofDays (dayAt offset base.millis - index)))) := by
    intro index hindex
    rw [Nat.zero_add]
    cases index with
    | zero =>
        rw [targetDir, Setting.dateBucket_day (hbase.trans hzone)]
        rfl
    | succ days =>
        rw [targetDir_succ hzone hbase, hlimit, if_pos]
        rw [← not_le, midnightOf_le_iff]
        omega
  have hend : targetDir jvm base baseHdfsDir lowerBound (0 + count) = .ok none := by
    rw [Nat.zero_add]
    cases count with
    | zero => omega
    | succ days =>
        rw [targetDir_succ hzone hbase, hlimit, if_neg]
        rw [not_lt, midnightOf_le_iff]
        omega
  refine ⟨takeEntries_eq hentries hend ?_, by rwa [Nat.zero_add] at hend⟩
  rw [targetDirsBound, hlimit]
  unfold dayAt millisPerDay at *
  omega

/-- The directories that are searched: they start with the base's day and go down day by day, they
include the day of every time from the lower bound to the base, and they end with the day of the
lower bound if it is in the same time zone. -/
theorem targetDirs_window {lowerOffset : ℤ} (baseHdfsDir : HdfsDir)
    (hzone : jvm.zone = .forOffsetMillis offset) (hbase : base.zone = jvm.zone)
    (hlower : lowerBound.zone = .forOffsetMillis lowerOffset) :
    ∃ dirs, targetDirs jvm base baseHdfsDir lowerBound = .ok dirs ∧
      targetDir jvm base baseHdfsDir lowerBound dirs.length = .ok none ∧
      dirs.head? = some (datePath baseHdfsDir base.toLocalDate) ∧
      (∀ (index : ℕ) dir, dirs[index]? = some dir →
        dir = datePath baseHdfsDir (.ofDays (base.toLocalDate.toDays - index))) ∧
      dirs.Nodup ∧
      (∀ instant, lowerBound.millis ≤ instant → instant ≤ base.millis →
        datePath baseHdfsDir (DateTime.toLocalDate ⟨instant, jvm.zone⟩) ∈ dirs) ∧
      (lowerBound.zone = base.zone → lowerBound.millis ≤ base.millis →
        dirs.getLast? = some (datePath baseHdfsDir lowerBound.toLocalDate)) := by
  have hday : ∀ time : DateTime, time.zone = .forOffsetMillis offset →
      time.toLocalDate = .ofDays (dayAt offset time.millis) := by
    intro time htime
    rw [DateTime.toLocalDate, htime]
    rfl
  have hlimit := toDateMidnight_dayBefore hlower
  -- The stream has this many days, and at least one: the base's own directory is always searched.
  obtain ⟨count, hcount⟩ := Int.eq_ofNat_of_zero_le (a := max 1 (dayAt offset base.millis -
    dayAt offset (midnightOf lowerOffset (dayAt lowerOffset lowerBound.millis - 1)))) (by omega)
  obtain ⟨hdirs, hend⟩ := targetDirs_eq baseHdfsDir hzone hbase hlimit hcount.symm
  refine ⟨_, hdirs, ?_, ?_, fun index dir hdir => ?_, ?_, fun instant hlow hhigh => ?_,
    fun hsame hle => ?_⟩
  · rwa [List.length_map, List.length_range]
  · rw [List.head?_map, List.head?_range, if_neg (by omega), hday base (hbase.trans hzone)]
    simp
  · rw [hday base (hbase.trans hzone), CalendarDate.toDays_ofDays]
    rw [List.getElem?_map, Option.map_eq_some_iff] at hdir
    obtain ⟨other, hother, rfl⟩ := hdir
    obtain ⟨hindex, hother⟩ := List.getElem?_eq_some_iff.1 hother
    rw [← hother, List.getElem_range]
  · refine List.Nodup.map (fun first second h => ?_) List.nodup_range
    have heq := datePath_ofDays_injective baseHdfsDir h
    omega
  · rw [hday ⟨instant, jvm.zone⟩ hzone, List.mem_map]
    refine ⟨(dayAt offset base.millis - dayAt offset instant).toNat, ?_, ?_⟩
    · rw [List.mem_range]
      unfold dayAt midnightOf millisPerDay at *
      omega
    · have hle : dayAt offset instant ≤ dayAt offset base.millis := by
        unfold dayAt millisPerDay
        omega
      rw [Int.toNat_of_nonneg (by omega), sub_sub_cancel]
  · -- In one zone the midnight before the lower bound is that of the day before it.
    rw [hday lowerBound (hsame.trans (hbase.trans hzone))]
    have hfirst := toDateMidnight_dayBefore (hsame.trans (hbase.trans hzone))
    rw [hlimit] at hfirst
    rw [hfirst, dayAt_midnightOf] at hcount
    have hmono : dayAt offset lowerBound.millis ≤ dayAt offset base.millis := by
      unfold dayAt millisPerDay
      omega
    have hlast : dayAt offset base.millis - ((count - 1 : ℕ) : ℤ) =
        dayAt offset lowerBound.millis := by
      omega
    rw [List.getLast?_map, List.getLast?_range, if_neg (by omega), Option.map_some, hlast]

/-- On 2014-03-01 at noon, from 2014-02-27 at noon. -/
theorem targetDirs_window_march :
    ∃ dirs, targetDirs .utc ⟨1393675200000, .utc⟩ (text "/logs") ⟨1393502400000, .utc⟩ = .ok dirs ∧
      dirs.head? = some (text "/logs/2014/03-01") ∧ text "/logs/2014/02-28" ∈ dirs ∧
      dirs.getLast? = some (text "/logs/2014/02-27") := by
  have hzone : Jvm.utc.zone = .forOffsetMillis 0 := rfl
  have hwindow := targetDirs_window (text "/logs") hzone
    (show (⟨1393675200000, .utc⟩ : DateTime).zone = Jvm.utc.zone from rfl)
    (show (⟨1393502400000, .utc⟩ : DateTime).zone = .forOffsetMillis 0 from rfl)
  obtain ⟨dirs, hdirs, _, hhead, _, _, hmem, hlast⟩ := hwindow
  refine ⟨dirs, hdirs, ?_, ?_, ?_⟩
  · rw [hhead]
    decide
  · have hday := hmem 1393588800000 (by decide) (by decide)
    rwa [show datePath (text "/logs") (DateTime.toLocalDate ⟨1393588800000, Jvm.utc.zone⟩) =
      text "/logs/2014/02-28" by decide] at hday
  · rw [hlast rfl (by decide)]
    decide

end Stream

end Barn.Hdfs
