import Barn.Hdfs.Plan

/-!
# The throttle

The step of `planNextShip` that decides whether it is time to ship (`throttle`, `planNextShip_eq`).
It goes through an `Interval` and through seconds in an `Int`, and `throttle_answers` says for which
times this gives an answer.
-/

namespace Barn.Hdfs

open Interaction

/-- The steps of `planNextShip` from the last shipped taistamp to `isShippingTime`. -/
def throttle (jvm : Jvm) (hdfsFilesFileInfo : List PlacedFileInfo)
    (shipInterval totalReadySize maxReadySize : ℤ) : Action Unit := do
  let lastShippedTimestamp ←
    Action.attempt (bare (lastShippedTime jvm (getLastShippedTaistamp hdfsFilesFileInfo)))
  isShippingTime jvm lastShippedTimestamp shipInterval totalReadySize maxReadySize

/-- Planning goes through the throttle. -/
theorem planNextShip_eq (jvm : Jvm) (serviceDir : Dir) (serviceInfo : LocalServiceInfo)
    (totalReadySize maxReadySize : ℤ) (baseHdfsDir : HdfsDir) (shipInterval : ℤ)
    (lookBackLowerBound : DateTime) :
    planNextShip jvm serviceDir serviceInfo totalReadySize maxReadySize baseHdfsDir shipInterval
      lookBackLowerBound = (do
        let base ← Action.now jvm .planNextShip
        let hdfsFiles ← searchDirs jvm serviceDir serviceInfo
          (targetDir jvm base baseHdfsDir lookBackLowerBound)
          (targetDirsBound base lookBackLowerBound) 0
        let hdfsFilesFileInfo ← Action.attempt (ofListing (hdfsFiles.getD (.ok [])))
        throttle jvm hdfsFilesFileInfo shipInterval totalReadySize maxReadySize
        return ⟨datePath baseHdfsDir (dateBucket base 0), targetTempDir baseHdfsDir,
          getLastShippedTaistamp hdfsFilesFileInfo⟩) := by
  unfold planNextShip
  congr 1
  funext base
  congr 1
  funext hdfsFiles
  congr 1
  funext infos
  unfold throttle
  dsimp only
  cases lastShippedTime jvm (getLastShippedTaistamp infos) <;> rfl

/-- What the throttle should answer: to ship if nothing was shipped yet, if the interval has passed
or if there is enough to ship. -/
def throttleAnswer (shipInterval totalReadySize maxReadySize now : ℤ) :
    Option DateTime → Attempt Unit
  | none => .ok ()
  | some last =>
      if shipInterval * 1000 ≤ now - last.millis ∨ maxReadySize < totalReadySize then .ok ()
      else .error (.left (.syncThrottled (text "I synced not long ago.")))

/-- The file was placed for the service. -/
def PlacedFor (jvm : Jvm) (serviceInfo : LocalServiceInfo) (file : HdfsFile) : Prop :=
  ∃ taistamp, targetName jvm taistamp serviceInfo = .ok file.getName

/-- What `collapseValidate` keeps comes from one of the results. -/
theorem mem_of_collapseValidate {α : Type} {results : List (Except BarnError α)} {values : List α}
    {value : α} (h : collapseValidate results = .ok values) (hvalue : value ∈ values) :
    .ok value ∈ results := by
  unfold collapseValidate at h
  split at h
  · rw [← Except.ok.inj h, List.mem_filterMap] at hvalue
    obtain ⟨result, hresult, hkept⟩ := hvalue
    cases result with
    | error error => simp at hkept
    | ok kept =>
        obtain rfl := Option.some.inj hkept
        exact hresult
  · simp at h

/-- The taistamp of a file that was placed for the service was decoded then. -/
theorem PlacedFor.decodes {jvm : Jvm} {serviceInfo : LocalServiceInfo} {files : List HdfsFile}
    {infos : List PlacedFileInfo} (hplaced : ∀ file ∈ files, PlacedFor jvm serviceInfo file)
    (hinfos : logsForService serviceInfo (collapseValidate (files.map getPlacedFileInfo)) =
      .ok infos) :
    ∃ last, lastShippedTime jvm (getLastShippedTaistamp infos) = .ok last := by
  cases hlast : getLastShippedTaistamp infos with
  | none => exact ⟨none, rfl⟩
  | some taistamp =>
      obtain ⟨⟨placed, hmem, rfl⟩, _⟩ := getLastShippedTaistamp_spec hlast
      unfold logsForService at hinfos
      cases hread : collapseValidate (files.map getPlacedFileInfo) with
      | error error => simp [hread, Except.map] at hinfos
      | ok all =>
          rw [hread] at hinfos
          obtain rfl := Except.ok.inj hinfos
          obtain ⟨hall, hmatches⟩ := List.mem_filter.1 hmem
          obtain ⟨file, hfile, hinfo⟩ := List.mem_map.1 (mem_of_collapseValidate hread hall)
          obtain ⟨taistamp, hname⟩ := hplaced file hfile
          have htaistamp := taistamp_of_placedMatches hname hinfo hmatches
          obtain ⟨time, htime, _⟩ := bind_eq_ok_iff.1 hname
          refine ⟨some time, ?_⟩
          rw [htaistamp, lastShippedTime, htime]
          rfl

section Answers

variable {s : Setting} {clock : ClockUse → ℤ} {world final : World} {infos : List PlacedFileInfo}
  {last : Option DateTime} {totalReadySize maxReadySize : ℤ}

/-- The throttle yields what `throttleAt` says. -/
theorem throttle_yields {result : Attempt Unit}
    (hlast : lastShippedTime s.jvm (getLastShippedTaistamp infos) = .ok last)
    (h : (throttle s.jvm infos s.barnConf.shipInterval totalReadySize maxReadySize).Yields clock
      world result final) :
    result = s.throttleAt last totalReadySize maxReadySize (s.timeOf clock .enoughTimePast) := by
  rw [throttle, hlast] at h
  exact (isShippingTime_yields h).1

/-- Whole seconds have passed if their milliseconds have. -/
theorem intervalSeconds_eq {start finish : DateTime} (hle : start.millis ≤ finish.millis)
    (hfits : (finish.millis - start.millis) / 1000 < 2 ^ 31) :
    intervalSeconds start finish = .ok ((finish.millis - start.millis) / 1000) := by
  rw [intervalSeconds, if_neg (by omega), if_pos hfits]

/-- The time is not in the future, and the seconds since then fit into an `Int`. -/
def Countable (clock : ClockUse → ℤ) (time : DateTime) : Prop :=
  time.millis ≤ clock .enoughTimePast ∧ (clock .enoughTimePast - time.millis) / 1000 < 2 ^ 31

/-- Then the throttle answers as it should. -/
theorem throttleAt_of_countable (h : ∀ time, last = some time → Countable clock time) :
    s.throttleAt last totalReadySize maxReadySize (s.timeOf clock .enoughTimePast) =
      throttleAnswer s.barnConf.shipInterval totalReadySize maxReadySize (clock .enoughTimePast)
        last := by
  cases last with
  | none => rfl
  | some time =>
      have hcountable := h time rfl
      have hseconds : intervalSeconds time (s.timeOf clock .enoughTimePast) =
          .ok ((clock .enoughTimePast - time.millis) / 1000) :=
        intervalSeconds_eq hcountable.1 hcountable.2
      have hpassed : s.barnConf.shipInterval ≤ (clock .enoughTimePast - time.millis) / 1000 ↔
          s.barnConf.shipInterval * 1000 ≤ clock .enoughTimePast - time.millis := by omega
      simp only [Setting.throttleAt, throttleAnswer, hseconds, hpassed]

/-- Otherwise an exception escapes: the interval is not built, or its seconds do not fit. -/
theorem throttleAt_thrown (s : Setting) (totalReadySize maxReadySize : ℤ) {time : DateTime}
    (h : ¬Countable clock time) :
    ∃ throwable, s.throttleAt (some time) totalReadySize maxReadySize
      (s.timeOf clock .enoughTimePast) = .error (.thrown throwable) := by
  obtain ⟨throwable, hthrown⟩ : ∃ throwable,
      intervalSeconds time (s.timeOf clock .enoughTimePast) = .error throwable := by
    unfold intervalSeconds Setting.timeOf
    split
    · exact ⟨_, rfl⟩
    · next hle =>
        rw [if_neg fun hfits => h ⟨not_lt.1 hle, hfits⟩]
        exact ⟨_, rfl⟩
  refine ⟨throwable, ?_⟩
  simp only [Setting.throttleAt, hthrown]

/-- The answer that it should give is no exception. -/
theorem throttleAnswer_ne_thrown {shipInterval now : ℤ} {throwable : Throwable} :
    throttleAnswer shipInterval totalReadySize maxReadySize now last ≠
      .error (.thrown throwable) := by
  cases last with
  | none => simp [throttleAnswer]
  | some time =>
      simp only [throttleAnswer]
      split <;> simp

/-- It lets the ship pass unless something was shipped too recently and there is too little. -/
theorem throttleAnswer_eq_ok_iff {shipInterval now : ℤ} :
    throttleAnswer shipInterval totalReadySize maxReadySize now last = .ok () ↔
      ∀ time, last = some time →
        shipInterval * 1000 ≤ now - time.millis ∨ maxReadySize < totalReadySize := by
  cases last with
  | none => simp [throttleAnswer]
  | some time =>
      simp only [throttleAnswer, Option.some.injEq, forall_eq']
      split
      · next hpass => simp [hpass]
      · next hstop => simp [hstop]

/-- An answer of the throttle is the one it should give. -/
theorem throttleAt_eq_iff :
    s.throttleAt last totalReadySize maxReadySize (s.timeOf clock .enoughTimePast) =
        throttleAnswer s.barnConf.shipInterval totalReadySize maxReadySize (clock .enoughTimePast)
          last ↔
      ∀ time, last = some time → Countable clock time := by
  refine ⟨fun h time hlast => ?_, throttleAt_of_countable⟩
  by_contra hnot
  subst hlast
  obtain ⟨throwable, hthrown⟩ := throttleAt_thrown s totalReadySize maxReadySize hnot
  exact throttleAnswer_ne_thrown (h.symm.trans hthrown)

/-- The throttle lets the ship pass. -/
theorem throttleAt_eq_ok_iff :
    s.throttleAt last totalReadySize maxReadySize (s.timeOf clock .enoughTimePast) = .ok () ↔
      ∀ time, last = some time → Countable clock time ∧
        (s.barnConf.shipInterval * 1000 ≤ clock .enoughTimePast - time.millis ∨
          maxReadySize < totalReadySize) := by
  by_cases hcountable : ∀ time, last = some time → Countable clock time
  · rw [throttleAt_of_countable hcountable, throttleAnswer_eq_ok_iff]
    exact ⟨fun h time hlast => ⟨hcountable time hlast, h time hlast⟩,
      fun h time hlast => (h time hlast).2⟩
  · refine ⟨fun hok => absurd (fun time hlast => ?_) hcountable,
      fun h => absurd (fun time hlast => (h time hlast).1) hcountable⟩
    by_contra hnot
    subst hlast
    obtain ⟨throwable, hthrown⟩ := throttleAt_thrown s totalReadySize maxReadySize hnot
    simp [hthrown] at hok

/-- The last shipped taistamp among these decodes to a time from which the throttle can count. -/
def Setting.LastCountable (s : Setting) (clock : ClockUse → ℤ) (infos : List PlacedFileInfo) :
    Prop :=
  ∀ taistamp, getLastShippedTaistamp infos = some taistamp →
    ∃ time, convertTai64ToTime s.jvm taistamp = .ok time ∧ Countable clock time

/-- The throttle has no reason to stop the ship. -/
def Setting.MayShip (s : Setting) (clock : ClockUse → ℤ) (totalReadySize maxReadySize : ℤ)
    (infos : List PlacedFileInfo) : Prop :=
  ∀ taistamp time, getLastShippedTaistamp infos = some taistamp →
    convertTai64ToTime s.jvm taistamp = .ok time →
    s.barnConf.shipInterval * 1000 ≤ clock .enoughTimePast - time.millis ∨
      maxReadySize < totalReadySize

/-- The throttle gives the right answer exactly if the last shipped timestamp is not in the future
and the seconds since then fit into an `Int`. -/
theorem throttle_answers {files : List HdfsFile}
    (hplaced : ∀ file ∈ files, PlacedFor s.jvm s.serviceInfo file)
    (hinfos : logsForService s.serviceInfo (collapseValidate (files.map getPlacedFileInfo)) =
      .ok infos) :
    (∃ last, lastShippedTime s.jvm (getLastShippedTaistamp infos) = .ok last ∧
      ∀ result final, (throttle s.jvm infos s.barnConf.shipInterval totalReadySize
        maxReadySize).Yields clock world result final →
        result = throttleAnswer s.barnConf.shipInterval totalReadySize maxReadySize
          (clock .enoughTimePast) last) ↔
    ∀ time, lastShippedTime s.jvm (getLastShippedTaistamp infos) = .ok (some time) →
      Countable clock time := by
  obtain ⟨last, hlast⟩ := PlacedFor.decodes hplaced hinfos
  rw [hlast]
  simp only [Except.ok.injEq, exists_eq_left']
  have hanswers : s.throttleAt last totalReadySize maxReadySize (s.timeOf clock .enoughTimePast) =
      throttleAnswer s.barnConf.shipInterval totalReadySize maxReadySize (clock .enoughTimePast)
        last ↔ ∀ time, last = some time → Countable clock time := throttleAt_eq_iff
  rw [← hanswers]
  constructor
  · intro h
    obtain ⟨result, final, hyields⟩ := exists_yields clock (throttle s.jvm infos
      s.barnConf.shipInterval totalReadySize maxReadySize) world
    rw [← throttle_yields hlast hyields]
    exact h result final hyields
  · intro h result final hyields
    rw [throttle_yields hlast hyields]
    exact h

end Answers

section Sample

/-- The service `web` of `node1`, shipped every hour. -/
def Setting.hourly : Setting where
  jvm := .utc
  barnConf := ⟨text "/local/tmp", text "/logs", 3600⟩
  serviceDir := text "/local/logs/web@main@node1"
  serviceInfo := ⟨text "web", text "node1"⟩
  decodes := decodeServiceInfo_web

/-- A file of that service, placed in May 2014. -/
def placedFile : HdfsFile :=
  ⟨text "/logs/2014/05-13", text "2014,05,13,web,node1,4000000053724e0000000000.seq"⟩

/-- What its name tells. -/
def placedFileInfo : PlacedFileInfo :=
  ⟨⟨2014, 5, 13⟩, text "node1", text "web", text "4000000053724e0000000000"⟩

theorem placedFor_placedFile :
    PlacedFor Setting.hourly.jvm Setting.hourly.serviceInfo placedFile :=
  ⟨text "4000000053724e0000000000",
    show targetName .utc _ _ = .ok _ by decide⟩

theorem logsForService_placedFile :
    logsForService Setting.hourly.serviceInfo
      (collapseValidate ([placedFile].map getPlacedFileInfo)) = .ok [placedFileInfo] := by
  decide

theorem lastShippedTime_placedFile :
    lastShippedTime Setting.hourly.jvm (getLastShippedTaistamp [placedFileInfo]) =
      .ok (some ⟨1399999965000, .utc⟩) := by
  have hlast : getLastShippedTaistamp [placedFileInfo] =
      some (text "4000000053724e0000000000") := rfl
  have htime : convertTai64ToTime .utc (text "4000000053724e0000000000") =
      .ok ⟨1399999965000, .utc⟩ :=
    convertTai64ToTime_of_millis (show _ = some 1399999965000 by decide)
  rw [hlast]
  show (convertTai64ToTime .utc (text "4000000053724e0000000000")).map some = _
  rw [htime]
  rfl

/-- So it does half an hour later. -/
theorem throttle_answers_later :
    ∃ last, lastShippedTime Setting.hourly.jvm (getLastShippedTaistamp [placedFileInfo]) =
      .ok last ∧ ∀ result final, (throttle Setting.hourly.jvm [placedFileInfo] 3600 1
        maxReadySize).Yields (fun _ => 1400001765000) (.initial 0) result final →
        result = throttleAnswer 3600 1 maxReadySize 1400001765000 last := by
  refine (throttle_answers (s := .hourly) ?_ logsForService_placedFile).2 fun time htime => ?_
  · exact fun file hfile => List.mem_singleton.1 hfile ▸ placedFor_placedFile
  · rw [lastShippedTime_placedFile] at htime
    rw [← Option.some.inj (Except.ok.inj htime)]
    exact ⟨by decide, by decide⟩

/-- But if the collector's clock is behind the producer's, an exception escapes. -/
theorem throttle_throws :
    PlacedFor Setting.hourly.jvm Setting.hourly.serviceInfo placedFile ∧
      logsForService Setting.hourly.serviceInfo
        (collapseValidate ([placedFile].map getPlacedFileInfo)) = .ok [placedFileInfo] ∧
      ∃ final, (throttle Setting.hourly.jvm [placedFileInfo] 3600 1 maxReadySize).Yields
        (fun _ => 1399999000000) (.initial 0) (.error (.thrown .illegalArgument)) final := by
  refine ⟨placedFor_placedFile, logsForService_placedFile, ?_⟩
  obtain ⟨result, final, hyields⟩ := exists_yields (fun _ => 1399999000000)
    (throttle Setting.hourly.jvm [placedFileInfo] 3600 1 maxReadySize) (.initial 0)
  obtain rfl := throttle_yields (s := .hourly) lastShippedTime_placedFile hyields
  exact ⟨final, hyields⟩

end Sample

end Barn.Hdfs
