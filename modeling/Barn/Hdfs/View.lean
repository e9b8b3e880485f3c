import Barn.Hdfs.Solo

/-!
# What a service sees of HDFS

The search of a service takes from a listing only what `relevantFiles` leaves of it: its `view` of
the directory. Files whose names read back as those of another service do not count
(`view_eq_of_counted`), and what a round selects depends on nothing else of HDFS
(`planAt_congr`, `selectAt_congr`).
-/

namespace Barn.Hdfs

open Interaction

namespace Setting

variable (s : Setting)

/-- What the search takes from the listing of a directory. -/
def view (world : World) (path : HdfsDir) : Option Listing :=
  relevantFiles s.serviceInfo (s.listing world path)

/-- The name reads back as one of another service or of another host. -/
def ReadsElsewhere (name : Text) : Prop :=
  ∃ placed, placedInfo name = some placed ∧ placedMatches placed s.serviceInfo = false

instance (name : Text) : Decidable (s.ReadsElsewhere name) :=
  decidable_of_iff ((placedInfo name).any fun placed => !placedMatches placed s.serviceInfo)
    (by simp [ReadsElsewhere, Option.any_eq_true])

/-- Another service or another host, whose names on HDFS can be told from those of the service. -/
structure Foreign (info : LocalServiceInfo) : Prop where
  ne : info ≠ s.serviceInfo
  service : OneLine info.serviceName
  host : OneLine info.hostName
  comma : 44 ∉ info.hostName

/-- The search takes notice of the entry. -/
def counts (entry : Entry) : Bool :=
  !entry.isDir && match placedInfo entry.getName with
    | some placed => placedMatches placed s.serviceInfo
    | none => true

/-- What is read in the names of the files. -/
def read (path : HdfsDir) (entries : List Entry) : List (Except BarnError PlacedFileInfo) :=
  ((entries.filter fun entry => !entry.isDir).map fun entry =>
    (⟨path, entry.getName⟩ : HdfsFile)).map getPlacedFileInfo

/-- The lookups tell what is seen of the day directories. -/
def Agrees (seen : HdfsDir → Option Listing) (lookup : HdfsDir → CachedListing) : Prop :=
  ∀ path, path ≠ s.tempDir → relevantFiles s.serviceInfo (lookup path) = seen path

end Setting

/-- A file with a hexadecimal taistamp and a year of four digits, unless it cannot be dated. -/
def Datable (jvm : Jvm) (file : File) : Prop :=
  ∀ time, fileTime jvm file = .ok time →
    IsHex file.taistamp ∧ 0 ≤ time.toLocalDate.year ∧ time.toLocalDate.year ≤ 9999

instance (jvm : Jvm) (file : File) : Decidable (Datable jvm file) :=
  match h : fileTime jvm file with
  | .ok time =>
      decidable_of_iff (IsHex file.taistamp ∧ 0 ≤ time.toLocalDate.year ∧
        time.toLocalDate.year ≤ 9999) (by simp [Datable, h])
  | .error _ => isTrue (by simp [Datable, h])

section View

variable {s : Setting} {world world' : World} {path : HdfsDir} {entries : List Entry}

/-- A file whose name reads back as one of others does not count. -/
theorem Setting.ReadsElsewhere.counts {entry : Entry} (h : s.ReadsElsewhere entry.getName) :
    s.counts entry = false := by
  obtain ⟨placed, hplaced, hmatches⟩ := h
  rw [Setting.counts, hplaced, Bool.and_eq_false_iff]
  exact .inr hmatches

/-- The name under which another service places a file reads back as one of others. -/
theorem Setting.Foreign.readsElsewhere {info : LocalServiceInfo} {file : File} {name : Text}
    (hinfo : s.Foreign info) (hfile : Datable s.jvm file)
    (hname : targetName s.jvm file.taistamp info = .ok name) : s.ReadsElsewhere name := by
  obtain ⟨time, htime, _⟩ := bind_eq_ok_iff.1 hname
  obtain ⟨hhex, hyear⟩ := hfile time htime
  have hplaced := getPlacedFileInfo_targetName [] htime hname hyear hinfo.service hinfo.host
    hinfo.comma hhex
  refine ⟨_, Setting.getPlacedFileInfo_eq_ok_iff.1 hplaced, ?_⟩
  rw [placedMatches, decide_eq_false_iff_not]
  intro hsame
  exact hinfo.ne (LocalServiceInfo.ext_iff.2 hsame)

/-- The errors among results. -/
def errorsOf {α : Type} (results : List (Except BarnError α)) : List BarnError :=
  results.filterMap fun | .error error => some error | .ok _ => none

/-- The values among results. -/
def valuesOf {α : Type} (results : List (Except BarnError α)) : List α :=
  results.filterMap fun | .ok value => some value | .error _ => none

/-- The search takes notice of a name that cannot be read, or is one of the service. -/
def noticed (serviceInfo : LocalServiceInfo) : Except BarnError PlacedFileInfo → Bool
  | .ok placed => placedMatches placed serviceInfo
  | .error _ => true

/-- Collecting keeps the values if there are no errors. -/
theorem collapseValidate_eq {α : Type} (results : List (Except BarnError α)) :
    collapseValidate results = match errorsOf results with
      | [] => .ok (valuesOf results)
      | head :: tail => .error (tail.foldl .combinedError head) := rfl

/-- Only errors and files of the service make a difference. -/
theorem relevantFiles_noticed (serviceInfo : LocalServiceInfo)
    (results : List (Except BarnError PlacedFileInfo)) :
    relevantFiles serviceInfo (.ok (collapseValidate (results.filter (noticed serviceInfo)))) =
      relevantFiles serviceInfo (.ok (collapseValidate results)) := by
  have herrors : errorsOf (results.filter (noticed serviceInfo)) = errorsOf results := by
    unfold errorsOf
    rw [List.filterMap_filter]
    congr 1
    funext result
    cases result with
    | error error => rfl
    | ok placed => cases hplaced : placedMatches placed serviceInfo <;> simp [noticed, hplaced]
  have hvalues : valuesOf (results.filter (noticed serviceInfo)) =
      filterService (valuesOf results) serviceInfo := by
    unfold valuesOf filterService
    rw [List.filterMap_filter, List.filter_filterMap]
    congr 1
    funext result
    cases result with
    | error error => rfl
    | ok placed =>
        cases hplaced : placedMatches placed serviceInfo <;>
          simp [noticed, Option.filter, hplaced]
  rw [collapseValidate_eq, collapseValidate_eq, herrors, hvalues]
  split
  · cases valuesOf results with
    | nil => rfl
    | cons first rest =>
        have htwice : filterService (filterService (first :: rest) serviceInfo) serviceInfo =
            filterService (first :: rest) serviceInfo := by
          simp only [filterService, List.filter_filter, Bool.and_self]
        simp only [relevantFiles, logsForService, Except.map]
        cases hfilter : filterService (first :: rest) serviceInfo with
        | nil => rfl
        | cons own others =>
            rw [hfilter] at htwice
            simp only [htwice]
  · rfl

/-- Of the names in a directory those are noticed that count. -/
theorem filter_read (entries : List Entry) :
    (Setting.read path entries).filter (noticed s.serviceInfo) =
      Setting.read path (entries.filter s.counts) := by
  have hnoticed : ∀ name, noticed s.serviceInfo (getPlacedFileInfo ⟨path, name⟩) =
      match Setting.placedInfo name with
        | some placed => placedMatches placed s.serviceInfo
        | none => true := by
    intro name
    cases hplaced : Setting.placedInfo name with
    | some placed => rw [Setting.getPlacedFileInfo_eq_ok_iff.2 hplaced, noticed]
    | none =>
        cases hread : getPlacedFileInfo ⟨path, name⟩ with
        | ok placed => simp [Setting.getPlacedFileInfo_eq_ok_iff.1 hread] at hplaced
        | error error => rfl
  simp only [Setting.read, List.map_map, List.filter_map, List.filter_filter]
  congr 1
  refine List.filter_congr fun entry _ => ?_
  rw [Function.comp_apply, Function.comp_apply, hnoticed, Setting.counts]
  cases entry.isDir <;> simp

/-- A directory that does not exist is seen as one that is empty. -/
theorem view_eq (s : Setting) (world : World) (path : HdfsDir) :
    s.view world path = match world.listingFault path with
      | some description => some (.error (caught s.jvm
          (text "Can't get list of files on HDFS dir: " ++ path) (.io description)))
      | none => relevantFiles s.serviceInfo
          (.ok (collapseValidate (Setting.read path (world.entries path)))) := by
  unfold Setting.view Setting.listing World.entries
  cases world.listingFault path with
  | some description => rfl
  | none => cases world.hdfs path <;> rfl

/-- What is seen depends on what counts. -/
theorem view_eq_of_counted (hfault : world'.listingFault path = world.listingFault path)
    (hcounted : (world'.entries path).filter s.counts = (world.entries path).filter s.counts) :
    s.view world' path = s.view world path := by
  rw [view_eq, view_eq, hfault, ← relevantFiles_noticed, filter_read, hcounted, ← filter_read,
    relevantFiles_noticed]

/-- Moving a file changes the entries of directories only. -/
theorem World.rest_moveFile {source target : HdfsFile}
    (h : world.moveFile source target = some world') :
    ∃ hdfs, world' = { world with hdfs := hdfs } := by
  unfold World.moveFile at h
  split at h
  · split at h
    · simp at h
    · rw [← Option.some.inj h]
      exact ⟨_, rfl⟩
  · simp at h

/-- A temporary file that is moved to a name of others is not seen. -/
theorem view_moveFile {source target : HdfsFile} (h : world.moveFile source target = some world')
    (hsource : source.parent = s.tempDir) (htarget : target.parent ≠ s.tempDir)
    (hname : s.ReadsElsewhere target.getName) (hpath : path ≠ s.tempDir) :
    s.view world' path = s.view world path := by
  have hparent : source.parent ≠ target.parent := fun heq => htarget (heq.symm.trans hsource)
  obtain ⟨entry, hentry⟩ : ∃ entry, (world.entries source.parent).find?
      (fun entry => entry.getName = source.getName) = some entry := by
    unfold World.moveFile at h
    split at h
    · next entry _ hentry _ => exact ⟨entry, hentry⟩
    · simp at h
  obtain ⟨_, hmoved, hothers, _⟩ := World.moveFile_spec h hparent hentry
  obtain ⟨hdfs, hrest⟩ := World.rest_moveFile h
  refine view_eq_of_counted (by rw [hrest]) ?_
  by_cases heq : path = target.parent
  · have hcounts : s.counts { entry with getName := target.getName } = false :=
      Setting.ReadsElsewhere.counts hname
    rw [heq, hmoved, List.filter_append, List.filter_cons_of_neg (by simp [hcounts]),
      List.filter_nil, List.append_nil]
  · rw [hothers path heq (hsource ▸ hpath)]

/-- Creating a directory changes nothing that is seen. -/
theorem view_makeDirectory (other : HdfsDir) :
    s.view (world.makeDirectory other) path = s.view world path :=
  view_eq_of_counted rfl (by rw [World.entries_makeDirectory])

/-- Writing a file elsewhere neither. -/
theorem view_writeFile {target : HdfsFile} {content : Content} (h : path ≠ target.parent) :
    s.view (world.writeFile target content) path = s.view world path :=
  view_eq_of_counted rfl (by rw [World.entries_writeFile h])

end View

section Congr

variable {s : Setting} {seen : HdfsDir → Option Listing} {lookup lookup' : HdfsDir → CachedListing}
  {base lookBack : DateTime}

/-- The directories that are searched are day directories. -/
theorem searched_ne_tempDir {count : ℕ} {path : HdfsDir}
    (h : s.searched base lookBack count = .ok (some path)) : path ≠ s.tempDir := by
  unfold Setting.searched targetDir at h
  split at h
  · rw [← Option.some.inj (Except.ok.inj h)]
    exact s.datePath_ne_tempDir _
  · obtain ⟨midnight, _, h⟩ := bind_eq_ok_iff.1 h
    split at h
    · rw [← Option.some.inj (Except.ok.inj h)]
      exact s.datePath_ne_tempDir _
    · simp [pure, Except.pure] at h

/-- The search depends on what is seen only. -/
theorem searchWith_congr (h : s.Agrees seen lookup) (h' : s.Agrees seen lookup')
    (base lookBack : DateTime) (fuel first : ℕ) :
    s.searchWith lookup' base lookBack fuel first =
      s.searchWith lookup base lookBack fuel first := by
  induction fuel generalizing first with
  | zero => rfl
  | succ fuel ih =>
      rw [Setting.searchWith, Setting.searchWith]
      cases hsearched : s.searched base lookBack first with
      | error throwable => rfl
      | ok found =>
          cases found with
          | none => rfl
          | some path =>
              have hpath := searched_ne_tempDir hsearched
              simp only [h path hpath, h' path hpath, ih]

/-- So does the plan. -/
theorem planAt_congr (h : s.Agrees seen lookup) (h' : s.Agrees seen lookup')
    (totalReadySize maxReadySize : ℤ) (lookBack base now : DateTime) :
    s.planAt lookup' totalReadySize maxReadySize lookBack base now =
      s.planAt lookup totalReadySize maxReadySize lookBack base now := by
  rw [Setting.planAt, Setting.planAt, searchWith_congr h h']

/-- And so do the candidates. -/
theorem selectAt_congr (h : s.Agrees seen lookup) (h' : s.Agrees seen lookup')
    (files : List File) (clock : ClockUse → ℤ) :
    s.selectAt lookup' files clock = s.selectAt lookup files clock := by
  simp only [Setting.selectAt, planAt_congr h h']

end Congr

end Barn.Hdfs
