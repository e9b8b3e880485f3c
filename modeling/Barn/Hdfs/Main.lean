import Barn.Hdfs.Placement.Hdfs
import Barn.Hdfs.Placement.Local

/-!
# A round of one service directory

`actOnServiceDir` of `main.scala` with the steps it is made of: choosing the candidates, combining
them, shipping the result through a temporary directory (`hadoop.scala`) and cleaning up. The
value of the round is its `Left` or `Right`, or the exception that escapes.
-/

namespace Barn.Hdfs

open Interaction

/-- `minMB` -/
def minMB : ℤ := 1

/-- `maxLookBackDays` -/
def maxLookBackDays : ℕ := 3

/-- `maxReadySize` -/
def maxReadySize : ℤ := 1 * 1024 * 1024 * 1024

/-- `earliestFileDate` -/
def earliestFileDate (jvm : Jvm) (localFiles : List File) : Attempt (Option DateTime) :=
  match localFiles.head? with
  | none => .ok none
  | some file => (svlogdFileTimestamp jvm file).map some

/-- The later of the earliest file's date and the limit. -/
def lookBackDate (minFileDate : Option DateTime) (maxLookBackTime : DateTime) : DateTime :=
  match minFileDate with
  | none => maxLookBackTime
  | some ts => if ts.isBefore maxLookBackTime then maxLookBackTime else ts

/-- `earliestLookbackDate` -/
def earliestLookbackDate (jvm : Jvm) (minFileDate : Option DateTime) (maxLookBackDays : ℕ) :
    Action DateTime := do
  let now ← Action.now jvm .earliestLookbackDate
  return lookBackDate minFileDate (now.minusDays maxLookBackDays)

/-- `dropWhile` with a predicate that can throw. -/
def dropWhileThrows {α : Type} (predicate : α → Throws Bool) : List α → Throws (List α)
  | [] => return []
  | value :: values => do
      if ← predicate value then dropWhileThrows predicate values else return value :: values

/-- The files that `outstandingFiles` drops: those up to the last taistamp and, without being
decoded twice, those that are too old. -/
def isSettled (jvm : Jvm) (lastTaistamp : Option Text) (maxLookBackTime : DateTime) (file : File) :
    Throws Bool := do
  let fileTaistring := svlogdFileNameToTaiString file.getName
  if lastTaistamp.any fun taistamp => fileTaistring ≤ taistamp then return true
  return (← convertTai64ToTime jvm fileTaistring).isBefore maxLookBackTime

/-- The midnight before which `outstandingFiles` finds files too old. -/
def oldestMidnight (now : DateTime) : DateTime :=
  ((now.minusDays maxLookBackDays).minusDays 1).toDateMidnight

/-- `outstandingFiles` -/
def outstandingFiles (jvm : Jvm) (localFiles : List File) (lastTaistamp : Option Text) :
    Action (List File) := do
  let now ← Action.now jvm .outstandingFiles
  match ← Action.attempt (bare
      (dropWhileThrows (isSettled jvm lastTaistamp (oldestMidnight now)) localFiles)) with
  | [] => Action.left (.nothingToSync (text "No local files left to sync."))
  | candidates => return candidates

/-- `concatCandidates` -/
def concatCandidates (jvm : Jvm) (candidates : List File) (targetDir : Dir) : Action Text :=
  Action.validate jvm (text "Can't combine files into a sequence file." ++
      text " Candidates to combine: List(" ++
      (text ", ").intercalate (candidates.map File.path) ++ text ")")
    (Action.combineIntoSeqFile candidates targetDir)

/-- `ensureHdfsDir` -/
def ensureHdfsDir (jvm : Jvm) (serviceDir : Dir) (hdfsDir : HdfsDir) : Action Unit := do
  Action.unboxLazy serviceDir
  Action.validate jvm (text "Can't ensure/create dirs on hdfs:" ++ hdfsDir) (Action.mkdirs hdfsDir)

/-- `shipToHdfs` -/
def shipToHdfs (jvm : Jvm) (localFile : Text) (targetFile : HdfsFile) : Action Unit :=
  Action.validate jvm (text "Can't ship to hdfs from " ++ localFile ++ text " to " ++
      targetFile.toText)
    (Action.copyFromLocalFile localFile targetFile)

/-- `atomicRenameOnHdfs` -/
def atomicRenameOnHdfs (jvm : Jvm) (src : HdfsFile) (dest : HdfsDir) (newName : Text) :
    Action HdfsFile :=
  Action.validate jvm (text "Rename failed due to IO error") do
    if ← Action.rename src ⟨dest, newName⟩ then return ⟨dest, newName⟩
    else Action.left (.renameFailed (text "Rename " ++ src.toText ++ text " to " ++
      HdfsFile.toText ⟨dest, newName⟩ ++ text " failed."))

/-- `atomicShipToHdfs` -/
def atomicShipToHdfs (jvm : Jvm) (serviceDir : Dir) (src : Text) (dest : HdfsDir)
    (hdfsName : Text) (temp : HdfsDir) : Action HdfsFile := do
  Action.unboxLazy serviceDir
  let hdfsTempFile : HdfsFile := ⟨temp, ← Action.randomName⟩
  shipToHdfs jvm src hdfsTempFile
  atomicRenameOnHdfs jvm hdfsTempFile dest hdfsName

/-- The last of the candidates, which the code takes from a list that is not empty. -/
def lastCandidate (candidates : List File) : Throws File :=
  match candidates.getLast? with
  | some file => .ok file
  | none => .error .noSuchElement

/-- The part of a round from the candidates on. -/
def shipCandidates (jvm : Jvm) (barnConf : BarnConf) (serviceDir : Dir)
    (serviceInfo : LocalServiceInfo) (plan : ShippingPlan) (candidates : List File) :
    Action Unit := do
  let concatted ← concatCandidates jvm candidates barnConf.localTempDir
  let last ← Action.attempt (bare (lastCandidate candidates))
  let lastTaistamp := svlogdFileNameToTaiString last.getName
  let targetName ← Action.attempt (bare (targetName jvm lastTaistamp serviceInfo))
  ensureHdfsDir jvm serviceDir plan.hdfsDir
  ensureHdfsDir jvm serviceDir plan.hdfsTempDir
  let _ ← atomicShipToHdfs jvm serviceDir concatted plan.hdfsDir targetName plan.hdfsTempDir
  let shippedTS ← Action.attempt (svlogdFileTimestamp jvm last)
  let _ ← cleanupLocal jvm serviceDir shippedTS minMB

/-- The `for` comprehension of `actOnServiceDir`. -/
def syncServiceDir (jvm : Jvm) (barnConf : BarnConf) (serviceDir : Dir) : Action Unit := do
  let serviceInfo ← Action.attempt (ofListing (decodeServiceInfo serviceDir))
  let localFiles ← listSortedLocalFiles jvm serviceDir
  let minFileDate ← Action.attempt (earliestFileDate jvm localFiles)
  let lookBack ← earliestLookbackDate jvm minFileDate maxLookBackDays
  let plan ← planNextShip jvm serviceDir serviceInfo (sumFileSizes localFiles) maxReadySize
    barnConf.hdfsLogDir barnConf.shipInterval lookBack
  let candidates ← outstandingFiles jvm localFiles plan.lastTaistamp
  shipCandidates jvm barnConf serviceDir serviceInfo plan candidates

/-- The cleanup after a `Left`, whose own result is not looked at. -/
def cleanupAfterError (jvm : Jvm) (serviceDir : Dir) : Action (ℤ × ℤ) := do
  let limit := (← Action.now jvm .actOnServiceDir).minusDays (maxLookBackDays + 1)
  cleanupLocal jvm serviceDir limit minMB

/-- `actOnServiceDir` -/
def actOnServiceDir (jvm : Jvm) (barnConf : BarnConf) (serviceDir : Dir) : Action Unit :=
  Program.bind (syncServiceDir jvm barnConf serviceDir) fun
    | .error (.left error) =>
        Program.bind (cleanupAfterError jvm serviceDir) fun _ => Action.left error
    | result => Action.attempt result

/-- A file that is not settled is greater than the last shipped one and not too old. -/
theorem isSettled_eq_false {jvm : Jvm} {lastTaistamp : Option Text} {limit : DateTime}
    {file : File} (h : isSettled jvm lastTaistamp limit file = .ok false) :
    (∀ taistamp, lastTaistamp = some taistamp → taistamp < file.taistamp) ∧
      ∃ time, fileTime jvm file = .ok time ∧ time.isBefore limit = false := by
  simp only [isSettled] at h
  split at h
  · simp [pure, Except.pure] at h
  · next hnot =>
      rw [bind_eq_ok_iff] at h
      obtain ⟨time, htime, hbefore⟩ := h
      refine ⟨fun taistamp htaistamp => ?_, time, htime, Except.ok.inj hbefore⟩
      rw [htaistamp] at hnot
      simpa [File.taistamp] using hnot

/-- A file that is settled is not greater than the last shipped one, or it is too old. -/
theorem isSettled_eq_true {jvm : Jvm} {lastTaistamp : Option Text} {limit : DateTime}
    {file : File} (h : isSettled jvm lastTaistamp limit file = .ok true) :
    (∃ taistamp, lastTaistamp = some taistamp ∧ file.taistamp ≤ taistamp) ∨
      ∃ time, fileTime jvm file = .ok time ∧ time.isBefore limit = true := by
  simp only [isSettled] at h
  split at h
  · next hany =>
      obtain ⟨taistamp, htaistamp, hle⟩ := (Option.any_eq_true _ _).1 hany
      exact .inl ⟨taistamp, htaistamp, by simpa [File.taistamp] using hle⟩
  · rw [bind_eq_ok_iff] at h
    obtain ⟨time, htime, hbefore⟩ := h
    exact .inr ⟨time, htime, Except.ok.inj hbefore⟩

/-- What is dropped comes first, and the first element after it is one to keep. -/
theorem dropWhileThrows_eq_ok {α : Type} {predicate : α → Throws Bool} {values rest : List α}
    (h : dropWhileThrows predicate values = .ok rest) :
    (∃ dropped, values = dropped ++ rest ∧ ∀ value ∈ dropped, predicate value = .ok true) ∧
      ∀ first, rest.head? = some first → predicate first = .ok false := by
  induction values with
  | nil =>
      rw [← Except.ok.inj h]
      exact ⟨⟨[], rfl, by simp⟩, fun _ hfirst => by simp at hfirst⟩
  | cons value values ih =>
      rw [dropWhileThrows, bind_eq_ok_iff] at h
      obtain ⟨holds, hvalue, hrest⟩ := h
      cases holds with
      | true =>
          obtain ⟨⟨dropped, rfl, hdropped⟩, hfirst⟩ := ih hrest
          refine ⟨⟨value :: dropped, rfl, fun other hother => ?_⟩, hfirst⟩
          rcases List.mem_cons.1 hother with rfl | htail
          · exact hvalue
          · exact hdropped other htail
      | false =>
          rw [← Except.ok.inj hrest]
          exact ⟨⟨[], rfl, by simp⟩, fun _ hfirst => Option.some.inj hfirst ▸ hvalue⟩

/-- What is not dropped is the end of the list. -/
theorem dropWhileThrows_suffix {α : Type} {predicate : α → Throws Bool} {values rest : List α}
    (h : dropWhileThrows predicate values = .ok rest) : rest <:+ values := by
  obtain ⟨⟨dropped, rfl, _⟩, _⟩ := dropWhileThrows_eq_ok h
  exact List.suffix_append _ _

/-- A timestamp that is extracted is the one in the file's name. -/
theorem fileTime_of_svlogdFileTimestamp {jvm : Jvm} {file : File} {time : DateTime}
    (h : svlogdFileTimestamp jvm file = .ok time) : fileTime jvm file = .ok time := by
  unfold svlogdFileTimestamp at h
  cases htime : fileTime jvm file with
  | error throwable => simp [htime, bare, validate] at h
  | ok found =>
      rw [htime] at h
      exact congrArg _ (Except.ok.inj h)

/-- The search goes back to the limit, or to the date of the first file. -/
theorem lookBackDate_cases {jvm : Jvm} {localFiles : List File} {minFileDate : Option DateTime}
    {limit : DateTime} (h : earliestFileDate jvm localFiles = .ok minFileDate) :
    lookBackDate minFileDate limit = limit ∨ ∃ first, localFiles.head? = some first ∧
      fileTime jvm first = .ok (lookBackDate minFileDate limit) := by
  unfold earliestFileDate at h
  split at h
  · rw [← Except.ok.inj h]
    exact .inl rfl
  · next first hfirst =>
      cases htime : svlogdFileTimestamp jvm first with
      | error failure => simp [htime, Except.map] at h
      | ok time =>
          simp only [htime, Except.map, Except.ok.injEq] at h
          subst h
          simp only [lookBackDate]
          split
          · exact .inl rfl
          · exact .inr ⟨first, hfirst, fileTime_of_svlogdFileTimestamp htime⟩

end Barn.Hdfs
