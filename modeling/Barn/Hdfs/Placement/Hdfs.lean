import Barn.Hdfs.Placement.Names
import Barn.Hdfs.World

/-!
# Planning the next ship

The search for the last shipped file on HDFS and the throttle, as in `placement/hdfs.scala`. The
day directories form a lazy stream that starts with today's; `searchDirs` looks through it until
a directory tells something about the service, and `searchDirs_fuel` says that it ends.
-/

namespace Barn.Hdfs

open Interaction

/-- One directory of `targetDirs`: the first is that of the base's day, the others follow day by
day as long as their midnights lie after the midnight before the lower bound's day. -/
def targetDir (jvm : Jvm) (base : DateTime) (baseHdfsDir : HdfsDir) (lowerBound : DateTime) :
    ℕ → Throws (Option HdfsDir)
  | 0 => return some (datePath baseHdfsDir (dateBucket base 0))
  | daysBefore + 1 => do
      let bucket := dateBucket base (daysBefore + 1)
      let midnight ← DateTime.ofDate jvm.zone bucket
      return if midnight.isAfter (lowerBound.minusDays 1).toDateMidnight then
        some (datePath baseHdfsDir bucket) else none

/-- How many directories `targetDirs` has at most, and one more. -/
def targetDirsBound (base lowerBound : DateTime) : ℕ :=
  ((base.millis - (lowerBound.minusDays 1).toDateMidnight.millis) / millisPerDay + 1).toNat + 2

/-- The entries of a stream from some index on, up to its end. -/
def takeEntries {α : Type} (stream : ℕ → Throws (Option α)) : ℕ → ℕ → Throws (List α)
  | 0, _ => return []
  | fuel + 1, index => do
      match ← stream index with
      | none => return []
      | some entry => return entry :: (← takeEntries stream fuel (index + 1))

/-- `targetDirs`, evaluated to its end. -/
def targetDirs (jvm : Jvm) (base : DateTime) (baseHdfsDir : HdfsDir) (lowerBound : DateTime) :
    Throws (List HdfsDir) :=
  takeEntries (targetDir jvm base baseHdfsDir lowerBound) (targetDirsBound base lowerBound) 0

/-- What `listHdfsFiles` makes of the reply of `listStatus`. -/
def listedFiles (hdfsDir : HdfsDir) : Attempt (Option (List Entry)) → Attempt (List HdfsFile)
  | .ok (some fileList) =>
      .ok ((fileList.filter fun entry => !entry.isDir).map fun entry => ⟨hdfsDir, entry.getName⟩)
  | .ok none | .error (.thrown .fileNotFound) =>
      .error (.left (.fileNotFound (text "Path " ++ hdfsDir ++ text " doesn't exist to list")))
  | .error failure => .error failure

/-- `listHdfsFiles` -/
def listHdfsFiles (jvm : Jvm) (hdfsDir : HdfsDir) : Action (List HdfsFile) :=
  Action.validate jvm (text "Can't get list of files on HDFS dir: " ++ hdfsDir)
    (Program.bind (Action.listStatus hdfsDir) fun reply =>
      Action.attempt (listedFiles hdfsDir reply))

/-- What is cached of a listing. -/
def cachedListing : Attempt (List HdfsFile) → Attempt CachedListing
  | .ok files => .ok (.ok (collapseValidate (files.map getPlacedFileInfo)))
  | .error (.left error) => .ok (.error error)
  | .error (.thrown throwable) => .error (.thrown throwable)

/-- The listing that `cachingLs` makes and caches. -/
def listPlacedFiles (jvm : Jvm) (path : HdfsDir) : Action CachedListing :=
  Program.bind (listHdfsFiles jvm path) fun files => Action.attempt (cachedListing files)

/-- `cachingLs` -/
def cachingLs (jvm : Jvm) (serviceDir : Dir) (path : HdfsDir) : Action CachedListing := do
  match ← Action.cacheGet path with
  | some cached => return cached
  | none =>
      Action.unboxLazy serviceDir
      let listResult ← listPlacedFiles jvm path
      Action.cachePut path listResult
      return listResult

/-- What a directory's listing contributes to the stream of relevant files. -/
def relevantFiles (serviceInfo : LocalServiceInfo) : CachedListing → Option Listing
  | .error (.fileNotFound _) => none
  | .error error => some (.error error)
  | .ok (.error error) => some (.error error)
  | .ok (.ok []) => none
  | .ok infos =>
      match logsForService serviceInfo infos with
      | .ok [] => none
      | otherwise => some otherwise

/-- The first element of the stream of relevant files, from some day back on. -/
def searchDirs (jvm : Jvm) (serviceDir : Dir) (serviceInfo : LocalServiceInfo)
    (targetDirs : ℕ → Throws (Option HdfsDir)) : ℕ → ℕ → Action (Option Listing)
  | 0, _ => return none
  | fuel + 1, daysBefore => do
      match ← Action.attempt (bare (targetDirs daysBefore)) with
      | none => return none
      | some each =>
          let listing ← cachingLs jvm serviceDir each
          match relevantFiles serviceInfo listing with
          | some relevant => return some relevant
          | none => searchDirs jvm serviceDir serviceInfo targetDirs fuel (daysBefore + 1)

/-- `enoughTimePast` -/
def enoughTimePast (jvm : Jvm) (base : DateTime) (enoughSeconds : ℤ) : Action Bool := do
  let now ← Action.now jvm .enoughTimePast
  let seconds ← Action.attempt (bare (intervalSeconds base now))
  return enoughSeconds ≤ seconds

/-- `isShippingTime` -/
def isShippingTime (jvm : Jvm) (lastShippedTimestamp : Option DateTime) (shippingInterval : ℤ)
    (totalReadySize maxReadySize : ℤ) : Action Unit := do
  match lastShippedTimestamp with
  | none => return
  | some lastTimestamp =>
      if (← enoughTimePast jvm lastTimestamp shippingInterval) || maxReadySize < totalReadySize then
        return
      else Action.left (.syncThrottled (text "I synced not long ago."))

/-- A value that may be an error. -/
def ofListing {α : Type} : Except BarnError α → Attempt α
  | .ok value => .ok value
  | .error error => .error (.left error)

/-- `lastShippedTaistamp.map(Tai64.convertTai64ToTime(_))` -/
def lastShippedTime (jvm : Jvm) : Option Text → Throws (Option DateTime)
  | none => .ok none
  | some taistamp => (convertTai64ToTime jvm taistamp).map some

/-- `planNextShip` -/
def planNextShip (jvm : Jvm) (serviceDir : Dir) (serviceInfo : LocalServiceInfo)
    (totalReadySize maxReadySize : ℤ) (baseHdfsDir : HdfsDir) (shipInterval : ℤ)
    (lookBackLowerBound : DateTime) : Action ShippingPlan := do
  let base ← Action.now jvm .planNextShip
  let hdfsFiles ← searchDirs jvm serviceDir serviceInfo
    (targetDir jvm base baseHdfsDir lookBackLowerBound) (targetDirsBound base lookBackLowerBound) 0
  let hdfsFilesFileInfo ← Action.attempt (ofListing (hdfsFiles.getD (.ok [])))
  let lastShippedTaistamp := getLastShippedTaistamp hdfsFilesFileInfo
  let lastShippedTimestamp ← Action.attempt (bare (lastShippedTime jvm lastShippedTaistamp))
  isShippingTime jvm lastShippedTimestamp shipInterval totalReadySize maxReadySize
  return ⟨datePath baseHdfsDir (dateBucket base 0), targetTempDir baseHdfsDir,
    lastShippedTaistamp⟩

/-- The stream of directories ends before its bound. -/
theorem targetDir_bound {jvm : Jvm} {base lowerBound : DateTime} {baseHdfsDir path : HdfsDir}
    {daysBefore : ℕ} (hzone : base.zone = jvm.zone)
    (h : targetDir jvm base baseHdfsDir lowerBound daysBefore = .ok (some path)) :
    daysBefore + 1 < targetDirsBound base lowerBound := by
  cases daysBefore with
  | zero =>
      unfold targetDirsBound
      omega
  | succ days =>
      rw [targetDir, bind_eq_ok_iff] at h
      obtain ⟨midnight, hmidnight, h⟩ := h
      have hafter : (lowerBound.minusDays 1).toDateMidnight.millis < midnight.millis := by
        by_contra hnot
        simp [DateTime.isAfter, hnot, pure, Except.pure] at h
      have hearlier := base.zone.minusDays_le base.millis (days + 1)
      have hstart : midnight.millis ≤ base.zone.minusDays base.millis (days + 1) := by
        cases hdate : jvm.zone.ofDate (dateBucket base (days + 1)) with
        | error throwable => simp [DateTime.ofDate, hdate, Except.map] at hmidnight
        | ok millis =>
            have hmillis : midnight.millis = millis := by
              simp only [DateTime.ofDate, hdate, Except.map, Except.ok.injEq] at hmidnight
              rw [← hmidnight]
            rw [← hzone] at hdate
            simp only [dateBucket, DateTime.minusDays, Nat.succ_ne_zero, if_false,
              DateTime.toLocalDate] at hdate
            exact hmillis ▸ base.zone.ofDate_le _ _ hdate
      have hbound : ((days : ℤ) + 1) * millisPerDay - millisPerDay <
          base.millis - (lowerBound.minusDays 1).toDateMidnight.millis := by
        push_cast at hearlier
        omega
      unfold targetDirsBound millisPerDay at *
      omega

/-- A stream that ends has as many entries as come before its end. -/
theorem takeEntries_eq {α : Type} {stream : ℕ → Throws (Option α)} {entry : ℕ → α}
    {count fuel index : ℕ} (hentries : ∀ before < count, stream (index + before) =
      .ok (some (entry before))) (hend : stream (index + count) = .ok none) (hfuel : count < fuel) :
    takeEntries stream fuel index = .ok ((List.range count).map entry) := by
  induction count generalizing fuel index entry with
  | zero =>
      obtain ⟨fuel, rfl⟩ := Nat.exists_eq_succ_of_ne_zero (by omega : fuel ≠ 0)
      rw [takeEntries, show stream index = .ok none from hend]
      rfl
  | succ count ih =>
      obtain ⟨fuel, rfl⟩ := Nat.exists_eq_succ_of_ne_zero (by omega : fuel ≠ 0)
      have hrest : takeEntries stream fuel (index + 1) =
          .ok ((List.range count).map fun before => entry (before + 1)) := by
        refine ih (fun before hbefore => ?_) ?_ (by omega)
        · rw [Nat.add_assoc, Nat.add_comm 1]
          exact hentries (before + 1) (by omega)
        · rw [Nat.add_assoc, Nat.add_comm 1]
          exact hend
      rw [takeEntries, show stream index = .ok (some (entry 0)) from hentries 0 (by omega),
        List.range_succ_eq_map, List.map_cons, List.map_map]
      simp only [bind, Except.bind, hrest]
      rfl

/-- More fuel than there are directories makes no difference to the search. -/
theorem searchDirs_fuel {jvm : Jvm} {serviceDir : Dir} {serviceInfo : LocalServiceInfo}
    {targetDirs : ℕ → Throws (Option HdfsDir)} {bound : ℕ}
    (hbound : ∀ daysBefore path, targetDirs daysBefore = .ok (some path) →
      daysBefore + 1 < bound) (extra fuel daysBefore : ℕ)
    (henough : bound ≤ daysBefore + fuel + 1) :
    searchDirs jvm serviceDir serviceInfo targetDirs (fuel + 1 + extra) daysBefore =
      searchDirs jvm serviceDir serviceInfo targetDirs (fuel + 1) daysBefore := by
  induction fuel generalizing daysBefore with
  | zero =>
      rw [Nat.zero_add, Nat.add_comm, searchDirs, searchDirs]
      cases htarget : targetDirs daysBefore with
      | error throwable => rfl
      | ok found =>
          cases found with
          | none => rfl
          | some path => exact absurd (hbound _ _ htarget) (by omega)
  | succ fuel ih =>
      have hnext := ih (daysBefore + 1) (by omega)
      rw [Nat.add_right_comm (fuel + 1), searchDirs, searchDirs]
      simp only [Nat.add_right_comm fuel] at hnext ⊢
      rw [hnext]

end Barn.Hdfs
