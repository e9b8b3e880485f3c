import Barn.Hdfs.Main

/-!
# What the search on HDFS finds out

A directory on HDFS is `Silent` about a service or `Tells` which of its files are there, and
`SearchFound` says what the search for the last shipped file has found. A listing that was just
made is true of its directory (`Setting.coherent_of_answer`).
-/

namespace Barn.Hdfs

open Interaction

/-- A service directory and the configuration its rounds run in. -/
structure Setting where
  jvm : Jvm
  barnConf : BarnConf
  serviceDir : Dir
  serviceInfo : LocalServiceInfo
  decodes : decodeServiceInfo serviceDir = .ok serviceInfo

namespace Setting

variable (s : Setting)

/-- The directory for temporary files on HDFS. -/
def tempDir : HdfsDir :=
  targetTempDir s.barnConf.hdfsLogDir

/-- The directory on HDFS for a time. -/
def hdfsDir (base : DateTime) : HdfsDir :=
  datePath s.barnConf.hdfsLogDir (dateBucket base 0)

/-- The information in a file's name on HDFS. -/
def placedInfo (name : Text) : Option PlacedFileInfo :=
  (getPlacedFileInfo ⟨[], name⟩).toOption

/-- The name reads back as one of the service. -/
def OwnName (name : Text) : Prop :=
  ∃ info, placedInfo name = some info ∧ placedMatches info s.serviceInfo = true

/-- The content is made of files of the service directory. -/
def OwnContent (content : Content) : Prop :=
  ∃ sources, content = .combined sources ∧ ∃ file ∈ sources, file.parent = s.serviceDir

/-- The entry has to do with the service: by its name or by its content. -/
def Concerns (entry : Entry) : Prop :=
  entry.isDir = false ∧ (s.OwnName entry.getName ∨ s.OwnContent entry.content)

/-- Nothing in the directory reads back as a file of the service. -/
def Silent (world : World) (path : HdfsDir) : Prop :=
  ∀ entry ∈ world.entries path, s.Concerns entry →
    ∃ info, placedInfo entry.getName = some info ∧ placedMatches info s.serviceInfo = false

/-- These are the files in the directory that read back as files of the service. -/
structure Tells (world : World) (path : HdfsDir) (infos : List PlacedFileInfo) : Prop where
  ne_nil : infos ≠ []
  complete : ∀ entry ∈ world.entries path, s.Concerns entry →
    ∃ info, placedInfo entry.getName = some info ∧
      (placedMatches info s.serviceInfo = true → info ∈ infos)
  sound : ∀ info ∈ infos, placedMatches info s.serviceInfo = true ∧
    ∃ entry ∈ world.entries path, entry.isDir = false ∧ placedInfo entry.getName = some info

/-- What the search takes from a listing is true of the directory. -/
def CoherentListing (world : World) (path : HdfsDir) (listing : CachedListing) : Prop :=
  match relevantFiles s.serviceInfo listing with
  | none => s.Silent world path
  | some (.ok infos) => s.Tells world path infos
  | some (.error _) => True

/-- Everything cached is true of its directory. -/
def Coherent (world : World) : Prop :=
  ∀ path listing, world.hdfsListCache path = some listing → s.CoherentListing world path listing

/-- The search ended with these files: in the first directory that tells something about the
service, or with none at the end of the stream. -/
def SearchFound (world : World) (base lookBack : DateTime) (infos : List PlacedFileInfo) : Prop :=
  let dirs := targetDir s.jvm base s.barnConf.hdfsLogDir lookBack
  ∃ count, (∀ before < count, ∃ path, dirs before = .ok (some path) ∧ s.Silent world path) ∧
    (infos = [] ∧ dirs count = .ok none ∨
      ∃ path, dirs count = .ok (some path) ∧ s.Tells world path infos)

end Setting

namespace Setting

variable {s : Setting} {world world' : World} {path : HdfsDir}

/-- A directory of a date is not the directory for temporary files. -/
theorem datePath_ne_tempDir (s : Setting) (bucket : DateBucket) :
    datePath s.barnConf.hdfsLogDir bucket ≠ s.tempDir := by
  intro h
  have hslash : (47 : ℕ) ∈ text "tmp" := by
    rw [tempDir, datePath, targetTempDir, childPath, childPath, List.append_cancel_left_eq] at h
    rw [← h]
    simp [text]
  exact absurd hslash (by decide)

/-- The day directories are not the directory for temporary files. -/
theorem hdfsDir_ne_tempDir (s : Setting) (base : DateTime) : s.hdfsDir base ≠ s.tempDir :=
  s.datePath_ne_tempDir _

/-- The parent of a file on HDFS does not influence what its name says. -/
theorem getPlacedFileInfo_eq_ok_iff {name : Text} {info : PlacedFileInfo} :
    getPlacedFileInfo ⟨path, name⟩ = .ok info ↔ placedInfo name = some info := by
  simp only [placedInfo, getPlacedFileInfo]
  split <;> simp [Except.toOption]

/-- All values are collected when there is no error. -/
theorem collapseValidate_eq_ok {α : Type} {results : List (Except BarnError α)} {values : List α}
    (h : collapseValidate results = .ok values) : results = values.map .ok := by
  unfold collapseValidate at h
  split at h
  · next hnone =>
      rw [← Except.ok.inj h]
      clear h
      induction results with
      | nil => rfl
      | cons result results ih =>
          cases result with
          | error error => simp at hnone
          | ok value =>
              exact congrArg (Except.ok value :: ·) (ih (by simpa using hnone))
  · simp at h

/-- A listing of these entries is true of the directory. -/
theorem coherent_of_entries {entries : List Entry} (hentries : world.entries path = entries) :
    s.CoherentListing world path (.ok (collapseValidate
      (((entries.filter fun entry => !entry.isDir).map fun entry =>
        (⟨path, entry.getName⟩ : HdfsFile)).map getPlacedFileInfo))) := by
  cases hcollapsed : collapseValidate (((entries.filter fun entry => !entry.isDir).map fun entry =>
      (⟨path, entry.getName⟩ : HdfsFile)).map getPlacedFileInfo) with
  | error error => simp [CoherentListing, relevantFiles]
  | ok infos =>
      have hinfos := collapseValidate_eq_ok hcollapsed
      rw [List.map_map] at hinfos
      -- The listing reads every file of the directory, and it reads nothing else.
      have hread : ∀ entry ∈ world.entries path, entry.isDir = false →
          ∃ info ∈ infos, placedInfo entry.getName = some info := by
        intro entry hentry hfile
        have hmem : getPlacedFileInfo ⟨path, entry.getName⟩ ∈ infos.map Except.ok := by
          rw [← hinfos]
          refine List.mem_map.2 ⟨entry, List.mem_filter.2 ⟨hentries ▸ hentry, ?_⟩, rfl⟩
          simp [hfile]
        obtain ⟨info, hinfo, heq⟩ := List.mem_map.1 hmem
        exact ⟨info, hinfo, getPlacedFileInfo_eq_ok_iff.1 heq.symm⟩
      have hsound : ∀ info ∈ infos, ∃ entry ∈ world.entries path,
          entry.isDir = false ∧ placedInfo entry.getName = some info := by
        intro info hinfo
        have hmem : (Except.ok info : Except BarnError PlacedFileInfo) ∈
            (entries.filter fun entry => !entry.isDir).map
              (getPlacedFileInfo ∘ fun entry => ⟨path, entry.getName⟩) := by
          rw [hinfos]
          exact List.mem_map_of_mem hinfo
        obtain ⟨entry, hentry, heq⟩ := List.mem_map.1 hmem
        obtain ⟨hentry, hfile⟩ := List.mem_filter.1 hentry
        exact ⟨entry, hentries ▸ hentry, by simpa using hfile,
          getPlacedFileInfo_eq_ok_iff.1 heq⟩
      have hsilent : filterService infos s.serviceInfo = [] → s.Silent world path := by
        intro hnone entry hentry hconcerns
        obtain ⟨info, hinfo, hplaced⟩ := hread entry hentry hconcerns.1
        refine ⟨info, hplaced, ?_⟩
        simpa using List.filter_eq_nil_iff.1 hnone info hinfo
      -- An empty listing and one without a file of this service both say that the directory is
      -- silent.
      cases infos with
      | nil => exact hsilent rfl
      | cons first rest =>
          simp only [CoherentListing, relevantFiles, logsForService, Except.map]
          cases hfilter : filterService (first :: rest) s.serviceInfo with
          | nil => exact hsilent hfilter
          | cons own others =>
              have hmem : ∀ info, info ∈ own :: others ↔
                  info ∈ first :: rest ∧ placedMatches info s.serviceInfo = true := by
                intro info
                rw [← hfilter, filterService, List.mem_filter]
              refine ⟨by simp, ?_, ?_⟩
              · intro entry hentry hconcerns
                obtain ⟨info, hinfo, hplaced⟩ := hread entry hentry hconcerns.1
                exact ⟨info, hplaced, fun hmatches => (hmem info).2 ⟨hinfo, hmatches⟩⟩
              · intro info hinfo
                obtain ⟨hinfo, hmatches⟩ := (hmem info).1 hinfo
                exact ⟨hmatches, hsound info hinfo⟩

/-- A listing that was just made is true of its directory. -/
theorem coherent_of_answer {jvm : Jvm} {detail : Text} {outcome : Outcome} {after : World}
    {reply : Command.Reply (.listStatus path)} {listing : CachedListing}
    (h : answer (.listStatus path) outcome world = some (reply, after))
    (hlisting : cachedListing (validate jvm detail (listedFiles path (bare reply))) =
      .ok listing) : s.CoherentListing after path listing := by
  obtain ⟨rfl, hreply⟩ := answer_listStatus h
  have hmissing : after.hdfs path = none → s.Silent after path := by
    intro hnone entry hentry
    rw [World.entries, hnone] at hentry
    simp at hentry
  rcases hreply with rfl | ⟨rfl, hnone⟩ | ⟨description, rfl⟩
  · cases hhdfs : after.hdfs path with
    | none =>
        rw [hhdfs] at hlisting
        simp only [bare, listedFiles, validate, cachedListing, Except.ok.injEq] at hlisting
        rw [← hlisting]
        exact hmissing hhdfs
    | some entries =>
        rw [hhdfs] at hlisting
        simp only [bare, listedFiles, validate, cachedListing, Except.ok.injEq] at hlisting
        rw [← hlisting]
        exact coherent_of_entries (by rw [World.entries, hhdfs, Option.getD_some])
  · simp only [bare, listedFiles, validate, cachedListing, Except.ok.injEq] at hlisting
    rw [← hlisting]
    exact hmissing hnone
  · simp only [bare, listedFiles, validate, cachedListing, Except.ok.injEq] at hlisting
    rw [← hlisting]
    simp [CoherentListing, relevantFiles, caught]

/-- The two worlds agree in what concerns the service. -/
def SameConcerns (s : Setting) (world world' : World) : Prop :=
  ∀ path entry, s.Concerns entry → (entry ∈ world'.entries path ↔ entry ∈ world.entries path)

/-- Worlds with the same files on HDFS do. -/
theorem SameConcerns.of_hdfs_eq (h : world'.hdfs = world.hdfs) : s.SameConcerns world world' := by
  intro path entry _
  rw [World.entries, World.entries, h]

/-- Silence depends only on what concerns the service. -/
theorem Silent.congr (h : s.Silent world path) (hsame : s.SameConcerns world world') :
    s.Silent world' path :=
  fun entry hentry hconcerns => h entry ((hsame path entry hconcerns).1 hentry) hconcerns

/-- So does what a directory tells. -/
theorem Tells.congr {infos : List PlacedFileInfo} (h : s.Tells world path infos)
    (hsame : s.SameConcerns world world') : s.Tells world' path infos where
  ne_nil := h.ne_nil
  complete := fun entry hentry hconcerns =>
    h.complete entry ((hsame path entry hconcerns).1 hentry) hconcerns
  sound := by
    intro info hinfo
    obtain ⟨hmatches, entry, hentry, hfile, hplaced⟩ := h.sound info hinfo
    have hconcerns : s.Concerns entry := ⟨hfile, .inl ⟨info, hplaced, hmatches⟩⟩
    exact ⟨hmatches, entry, (hsame path entry hconcerns).2 hentry, hfile, hplaced⟩

/-- So does the truth of a listing. -/
theorem CoherentListing.congr {listing : CachedListing}
    (h : s.CoherentListing world path listing) (hsame : s.SameConcerns world world') :
    s.CoherentListing world' path listing := by
  unfold CoherentListing at h ⊢
  split
  · next hnone =>
      simp only [hnone] at h
      exact Silent.congr h hsame
  · next hsome =>
      simp only [hsome] at h
      exact Tells.congr h hsame
  · trivial

/-- So does the truth of everything cached. -/
theorem Coherent.congr (h : s.Coherent world)
    (hcache : world'.hdfsListCache = world.hdfsListCache) (hsame : s.SameConcerns world world') :
    s.Coherent world' := by
  intro path listing hlisting
  rw [hcache] at hlisting
  exact (h path listing hlisting).congr hsame

/-- So does what the search has found. -/
theorem SearchFound.congr {base lookBack : DateTime} {infos : List PlacedFileInfo}
    (h : s.SearchFound world base lookBack infos) (hsame : s.SameConcerns world world') :
    s.SearchFound world' base lookBack infos := by
  obtain ⟨count, hbefore, hlast⟩ := h
  refine ⟨count, fun before hlt => ?_, ?_⟩
  · obtain ⟨path, hpath, hsilent⟩ := hbefore before hlt
    exact ⟨path, hpath, hsilent.congr hsame⟩
  · rcases hlast with hnone | ⟨path, hpath, htells⟩
    · exact .inl hnone
    · exact .inr ⟨path, hpath, htells.congr hsame⟩

end Setting

end Barn.Hdfs
