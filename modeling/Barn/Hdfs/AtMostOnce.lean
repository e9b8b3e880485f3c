import Barn.Hdfs.Arrivals
import Barn.Hdfs.Days

/-!
# Every file is shipped at most once

In a time zone of fixed offset the rounds of a service ship no file twice, unless a round selects
candidates when all its files on HDFS are out of sight and a local one is not: `Stale` says when.
The invariant is a log of the shipments so far, `Ledger`; read `shipped_atMostOnce` last.
-/

namespace Barn.Hdfs

open Interaction Relation

namespace Setting

variable (s : Setting)

/-- A file on HDFS, outside the directory for temporary files, that holds this file. -/
def Holds (world : World) (path : HdfsDir) (entry : Entry) (file : File) : Prop :=
  path ≠ s.tempDir ∧ entry ∈ world.entries path ∧ entry.isDir = false ∧
    ∃ sources, entry.content = .combined sources ∧ file ∈ sources

/-- No file of the service is in two files on HDFS. -/
def AtMostOnce (world : World) : Prop :=
  ∀ file path path' entry entry', file.parent = s.serviceDir → s.Holds world path entry file →
    s.Holds world path' entry' file → path = path' ∧ entry = entry'

/-- At this time all files of the service on HDFS are in directories that the search no longer
reaches, while a local file that is not greater than the last file of one of them is not yet too
old to be selected. -/
def Stale (world : World) (millis : ℤ) : Prop :=
  (∀ path entry source, source.parent = s.serviceDir → s.Holds world path entry source →
    ∃ days, maxLookBackDays + 1 ≤ days ∧
      path = datePath s.barnConf.hdfsLogDir (dateBucket ⟨millis, s.jvm.zone⟩ days)) ∧
  ∃ file ∈ world.localFiles s.serviceDir,
    (∃ time, fileTime s.jvm file = .ok time ∧
      time.isBefore (oldestMidnight ⟨millis, s.jvm.zone⟩) = false) ∧
    ∃ path entry last, s.Holds world path entry last ∧ last.parent = s.serviceDir ∧
      file.taistamp ≤ last.taistamp

/-- A file of svlogd that arrives in order and is not dated in the future. -/
structure ArrivesInTime (world : World) (file : File) : Prop where
  svlogd : s.IsSvlogdFile file
  greater : ∀ other ∈ world.received, other.taistamp < file.taistamp
  dated : ∃ time, fileTime s.jvm file = .ok time ∧ time.millis ≤ world.clock

/-- If the name under which the file would be the last one shipped can be read, then the service is
read back. -/
def ReadsBack (file : File) : Prop :=
  ∀ name info, targetName s.jvm file.taistamp s.serviceInfo = .ok name →
    placedInfo name = some info → placedMatches info s.serviceInfo = true

/-- Files arrive in time, and nothing is said about the selection of candidates. -/
def inTimeTerms : Terms where
  toSetting := s
  trusted := True
  mayRead := fun _ _ => True
  mayArrive := s.ArrivesInTime

/-- The terms on which every file is shipped at most once. -/
def onceTerms : Terms where
  toSetting := s
  trusted := True
  mayRead := fun world millis => ¬ s.Stale world millis
  mayArrive := fun world file => s.ArrivesInTime world file ∧ s.ReadsBack file

/-- Nothing of the service has happened yet. -/
structure Untouched (world : World) : Prop where
  received_eq : world.received = []
  localFiles_eq : world.localFiles s.serviceDir = []
  entries : ∀ path, ∀ entry ∈ world.entries path, ¬ s.Concerns entry

end Setting

/-- A file that a round has put on HDFS: its day, its content and the last file in it. -/
structure Shipment where
  day : ℤ
  sources : List File
  last : File
  name : Text

/-- The entry of the file on HDFS. -/
def Shipment.entry (shipment : Shipment) : Entry :=
  ⟨shipment.name, false, .combined shipment.sources⟩

section Invariant

variable (s : Setting) (offset : ℤ) (shipments : List Shipment) (world : World)

/-- These are the shipments so far, in order. Each is later than those before it, in the days as in
the taistamps, and nothing up to its last file is dated after its day. -/
structure Ledger : Prop where
  entries_iff : ∀ path, path ≠ s.tempDir → ∀ entry, s.Concerns entry →
    (entry ∈ world.entries path ↔
      ∃ shipment ∈ shipments, path = s.dayDir shipment.day ∧ entry = shipment.entry)
  name_eq : ∀ shipment ∈ shipments,
    targetName s.jvm shipment.last.taistamp s.serviceInfo = .ok shipment.name
  last_eq : ∀ shipment ∈ shipments, shipment.sources.getLast? = some shipment.last
  sources_sublist : ∀ shipment ∈ shipments, shipment.sources.Sublist world.received
  day_le : ∀ shipment ∈ shipments, shipment.day ≤ dayAt offset world.clock
  dated : ∀ shipment ∈ shipments, ∀ file ∈ world.received,
    file.taistamp ≤ shipment.last.taistamp → ∀ time, fileTime s.jvm file = .ok time →
      dayAt offset time.millis ≤ shipment.day
  ordered : shipments.Pairwise fun first second =>
    (∀ file ∈ second.sources, first.last.taistamp < file.taistamp) ∧ first.day ≤ second.day

/-- What holds of the files received so far. -/
structure InTime : Prop where
  dated : ∀ file ∈ world.received, ∃ time, fileTime s.jvm file = .ok time ∧
    time.millis ≤ world.clock
  readsBack : ∀ file ∈ world.received, s.ReadsBack file

/-- These files were listed in this round, and are still there. -/
structure Listed (files : List File) : Prop where
  sublist : files.Sublist world.received
  present : ∀ file ∈ files, file ∈ world.localFiles s.serviceDir

/-- How far back the search looks: some days before now, or to the date of the first file. -/
def LooksBack (files : List File) (lookBack : DateTime) : Prop :=
  (∃ millis ≤ world.clock,
    lookBack = DateTime.minusDays maxLookBackDays ⟨millis, s.jvm.zone⟩) ∨
  ∃ first, files.head? = some first ∧ fileTime s.jvm first = .ok lookBack

/-- The round has planned at this time: no shipment is of a later day, nor is a file up to the last
of these dated later. -/
structure PlannedAt (files : List File) (base : DateTime) : Prop where
  zone_eq : base.zone = s.jvm.zone
  clock_le : base.millis ≤ world.clock
  day_le : ∀ shipment ∈ shipments, shipment.day ≤ dayAt offset base.millis
  dated : ∀ last, files.getLast? = some last → ∀ file ∈ world.received,
    file.taistamp ≤ last.taistamp → ∀ time, fileTime s.jvm file = .ok time →
      dayAt offset time.millis ≤ dayAt offset base.millis

/-- What holds in each phase of a round. -/
def Progress : Phase → Prop
  | .listed files => Listed s world files
  | .looking files lookBack => Listed s world files ∧ LooksBack s world files lookBack
  | .planning files lookBack base => Listed s world files ∧ LooksBack s world files lookBack ∧
      PlannedAt s offset shipments world files base
  | .selected base candidates => candidates.Sublist world.received ∧
      PlannedAt s offset shipments world candidates base ∧
      ∀ shipment ∈ shipments, ∀ file ∈ candidates, shipment.last.taistamp < file.taistamp
  | .ready | .shipped _ | .failed _ | .cleaning _ _ _ => True

/-- The invariant of the rounds. -/
structure Books (state : Phase × World) : Prop where
  arrived : s.Arrived state.2
  inTime : InTime s state.2
  ledger : Ledger s offset shipments state.2
  progress : Progress s offset shipments state.2 state.1

end Invariant

section Calm

variable {s : Setting} {offset : ℤ} {shipments : List Shipment} {world world' : World}
  {files : List File} {phase : Phase}

/-- A later time is of no earlier day. -/
theorem dayAt_mono {millis millis' : ℤ} (h : millis ≤ millis') :
    dayAt offset millis ≤ dayAt offset millis' := by
  unfold dayAt millisPerDay
  omega

theorem Ledger.calm (h : Ledger s offset shipments world) (hcalm : s.Calm world world') :
    Ledger s offset shipments world' where
  entries_iff := fun path hpath entry hconcerns =>
    (hcalm.sameConcerns path hpath entry hconcerns).trans (h.entries_iff path hpath entry hconcerns)
  name_eq := h.name_eq
  last_eq := h.last_eq
  sources_sublist := by
    rw [hcalm.received_eq]
    exact h.sources_sublist
  day_le := fun shipment hshipment =>
    (h.day_le shipment hshipment).trans (dayAt_mono hcalm.clock_le)
  dated := by
    rw [hcalm.received_eq]
    exact h.dated
  ordered := h.ordered

theorem InTime.calm (h : InTime s world) (hcalm : s.Calm world world') : InTime s world' where
  dated := by
    intro file hfile
    rw [hcalm.received_eq] at hfile
    obtain ⟨time, htime, hle⟩ := h.dated file hfile
    exact ⟨time, htime, hle.trans hcalm.clock_le⟩
  readsBack := by
    rw [hcalm.received_eq]
    exact h.readsBack

theorem Listed.calm (h : Listed s world files) (hcalm : s.Calm world world') :
    Listed s world' files where
  sublist := by
    rw [hcalm.received_eq]
    exact h.sublist
  present := by
    rw [hcalm.localFiles_eq]
    exact h.present

theorem LooksBack.later {lookBack : DateTime} (h : LooksBack s world files lookBack)
    (hclock : world.clock ≤ world'.clock) : LooksBack s world' files lookBack := by
  rcases h with ⟨millis, hle, heq⟩ | hfirst
  · exact .inl ⟨millis, hle.trans hclock, heq⟩
  · exact .inr hfirst

theorem PlannedAt.calm {base : DateTime} (h : PlannedAt s offset shipments world files base)
    (hcalm : s.Calm world world') : PlannedAt s offset shipments world' files base where
  zone_eq := h.zone_eq
  clock_le := h.clock_le.trans hcalm.clock_le
  day_le := h.day_le
  dated := by
    rw [hcalm.received_eq]
    exact h.dated

/-- Calm changes keep the invariant. -/
theorem Books.calm (h : Books s offset shipments (phase, world)) (hcalm : s.Calm world world') :
    Books s offset shipments (phase, world') where
  arrived := h.arrived.calm hcalm
  inTime := h.inTime.calm hcalm
  ledger := h.ledger.calm hcalm
  progress := by
    have hprogress := h.progress
    cases phase with
    | listed files => exact hprogress.calm hcalm
    | looking files lookBack =>
        exact ⟨hprogress.1.calm hcalm, hprogress.2.later hcalm.clock_le⟩
    | planning files lookBack base =>
        exact ⟨hprogress.1.calm hcalm, hprogress.2.1.later hcalm.clock_le,
          hprogress.2.2.calm hcalm⟩
    | selected base candidates =>
        refine ⟨?_, hprogress.2.1.calm hcalm, hprogress.2.2⟩
        rw [hcalm.received_eq]
        exact hprogress.1
    | _ => trivial

end Calm

section Arrival

variable {s : Setting} {offset : ℤ} {shipments : List Shipment} {world : World} {file : File}
  {files : List File} {phase : Phase}

theorem Listed.receive (h : Listed s world files) (hfile : s.ArrivesInTime world file) :
    Listed s (world.receive file) files where
  sublist := h.sublist.trans (List.sublist_append_left _ _)
  present := by
    rw [Setting.localFiles_receive hfile.svlogd.parent_eq]
    exact fun other hother => List.mem_append_left _ (h.present other hother)

/-- What is said of the files up to one that was received does not concern a file that arrives. -/
theorem forall_receive {limit : File} {property : File → Prop} (hlimit : limit ∈ world.received)
    (hfile : s.ArrivesInTime world file)
    (h : ∀ other ∈ world.received, other.taistamp ≤ limit.taistamp → property other) :
    ∀ other ∈ (world.receive file).received, other.taistamp ≤ limit.taistamp → property other := by
  intro other hother hle
  rcases List.mem_append.1 hother with hold | hnew
  · exact h other hold hle
  · rw [List.mem_singleton.1 hnew] at hle
    exact absurd (hfile.greater limit hlimit) hle.not_gt

/-- The last of some received files was received. -/
theorem getLast?_mem_received {last : File} (hfiles : files.Sublist world.received)
    (hlast : files.getLast? = some last) : last ∈ world.received :=
  hfiles.subset (List.mem_of_getLast? hlast)

theorem PlannedAt.receive {base : DateTime} (h : PlannedAt s offset shipments world files base)
    (hfiles : files.Sublist world.received) (hfile : s.ArrivesInTime world file) :
    PlannedAt s offset shipments (world.receive file) files base where
  zone_eq := h.zone_eq
  clock_le := h.clock_le
  day_le := h.day_le
  dated := fun last hlast =>
    forall_receive (getLast?_mem_received hfiles hlast) hfile (h.dated last hlast)

/-- A file that arrives in order keeps the invariant. -/
theorem Books.receive (h : Books s offset shipments (phase, world))
    (hfile : s.ArrivesInTime world file) (hreadsBack : s.ReadsBack file) :
    Books s offset shipments (phase, world.receive file) where
  arrived := h.arrived.receive hfile.svlogd hfile.greater
  inTime := by
    constructor
    · intro other hother
      rcases List.mem_append.1 hother with hold | hnew
      · exact h.inTime.dated other hold
      · rw [List.mem_singleton.1 hnew]
        exact hfile.dated
    · intro other hother
      rcases List.mem_append.1 hother with hold | hnew
      · exact h.inTime.readsBack other hold
      · rw [List.mem_singleton.1 hnew]
        exact hreadsBack
  ledger := by
    have hledger := h.ledger
    refine ⟨hledger.entries_iff, hledger.name_eq, hledger.last_eq, fun shipment hshipment =>
      (hledger.sources_sublist shipment hshipment).trans (List.sublist_append_left _ _),
      hledger.day_le, fun shipment hshipment => ?_, hledger.ordered⟩
    exact forall_receive (getLast?_mem_received (hledger.sources_sublist shipment hshipment)
      (hledger.last_eq shipment hshipment)) hfile (hledger.dated shipment hshipment)
  progress := by
    have hprogress := h.progress
    cases phase with
    | listed files => exact hprogress.receive hfile
    | looking files lookBack => exact ⟨hprogress.1.receive hfile, hprogress.2⟩
    | planning files lookBack base =>
        exact ⟨hprogress.1.receive hfile, hprogress.2.1,
          hprogress.2.2.receive hprogress.1.sublist hfile⟩
    | selected base candidates =>
        exact ⟨hprogress.1.trans (List.sublist_append_left _ _),
          hprogress.2.1.receive hprogress.1 hfile, hprogress.2.2⟩
    | _ => trivial

/-- So does a deletion during the cleanup. -/
theorem Books.removeLocal {shipped : Bool} {limit : DateTime}
    (h : Books s offset shipments (.cleaning shipped limit files, world)) :
    Books s offset shipments (.cleaning shipped limit files, world.removeLocal file) where
  arrived := h.arrived.removeLocal
  inTime := ⟨h.inTime.dated, h.inTime.readsBack⟩
  ledger := ⟨h.ledger.entries_iff, h.ledger.name_eq, h.ledger.last_eq, h.ledger.sources_sublist,
    h.ledger.day_le, h.ledger.dated, h.ledger.ordered⟩
  progress := trivial

end Arrival

section Selection

variable {s : Setting} {offset : ℤ} {shipments : List Shipment} {world : World}
  {files candidates : List File}

/-- A shipment is a file on HDFS that concerns the service. -/
theorem Ledger.entry_mem (h : Ledger s offset shipments world) (harrived : s.Arrived world)
    {shipment : Shipment} (hshipment : shipment ∈ shipments) :
    s.Concerns shipment.entry ∧ shipment.entry ∈ world.entries (s.dayDir shipment.day) := by
  have hlast := List.mem_of_getLast? (h.last_eq shipment hshipment)
  have hreceived := (h.sources_sublist shipment hshipment).subset hlast
  have hconcerns : s.Concerns shipment.entry :=
    ⟨rfl, .inr ⟨shipment.sources, rfl, shipment.last, hlast,
      (harrived.svlogd _ hreceived).parent_eq⟩⟩
  exact ⟨hconcerns, (h.entries_iff _ (s.dayDir_ne_tempDir _) _ hconcerns).2
    ⟨shipment, hshipment, rfl, rfl⟩⟩

/-- If the name of a shipment can be read, then it reads back as one of the service and its last
file. -/
theorem Ledger.readsBack (h : Ledger s offset shipments world) (hinTime : InTime s world)
    {shipment : Shipment} (hshipment : shipment ∈ shipments) {info : PlacedFileInfo}
    (hinfo : Setting.placedInfo shipment.name = some info) :
    placedMatches info s.serviceInfo = true ∧ info.taistamp = shipment.last.taistamp := by
  have hreceived := getLast?_mem_received (h.sources_sublist shipment hshipment)
    (h.last_eq shipment hshipment)
  have hname := h.name_eq shipment hshipment
  have hmatches := hinTime.readsBack _ hreceived _ _ hname hinfo
  have hplaced : getPlacedFileInfo ⟨[], shipment.name⟩ = .ok info :=
    Setting.getPlacedFileInfo_eq_ok_iff.2 hinfo
  exact ⟨hmatches, taistamp_of_placedMatches hname hplaced hmatches⟩

/-- A shipment of an earlier day is also earlier in its files. -/
theorem Ledger.last_lt (h : Ledger s offset shipments world) {first second : Shipment}
    (hfirst : first ∈ shipments) (hsecond : second ∈ shipments) (hday : first.day < second.day) :
    first.last.taistamp < second.last.taistamp := by
  have heither : ∀ one ∈ shipments, ∀ other ∈ shipments, one.day < other.day →
      one.last.taistamp < other.last.taistamp := by
    have hordered := h.ordered
    have hlast := h.last_eq
    clear h hfirst hsecond
    induction shipments with
    | nil => simp
    | cons head tail ih =>
        rw [List.pairwise_cons] at hordered
        intro one hone other hother hlt
        rcases List.mem_cons.1 hone with rfl | honeTail
        · rcases List.mem_cons.1 hother with rfl | hotherTail
          · exact absurd hlt (lt_irrefl _)
          · exact (hordered.1 other hotherTail).1 _ (List.mem_of_getLast? (hlast other hother))
        · rcases List.mem_cons.1 hother with rfl | hotherTail
          · exact absurd (hordered.1 one honeTail).2 hlt.not_ge
          · exact ih hordered.2 (fun shipment h => hlast shipment (.tail _ h)) one honeTail other
              hotherTail hlt
  exact heither first hfirst second hsecond hday

/-- What the search has found is a shipment that nothing later follows, or there is none left in
the days it has searched. -/
theorem Books.searchFound {lookBack base : DateTime} {infos : List PlacedFileInfo}
    (hzone : s.jvm.zone = .forOffsetMillis offset)
    (h : Books s offset shipments (.planning files lookBack base, world))
    (hfound : s.SearchFound world base lookBack infos) :
    (∃ taistamp, getLastShippedTaistamp infos = some taistamp ∧
      ∀ shipment ∈ shipments, shipment.last.taistamp ≤ taistamp) ∨
    (infos = [] ∧ ∀ shipment ∈ shipments, midnightOf offset shipment.day ≤
      (lookBack.minusDays 1).toDateMidnight.millis) := by
  obtain ⟨_, _, hplanned⟩ := h.progress
  have hbase : base.zone = .forOffsetMillis offset := hplanned.zone_eq.trans hzone
  obtain ⟨count, hbefore, hend⟩ := hfound
  -- No shipment is of a day whose directory was passed.
  have hpassed : ∀ shipment ∈ shipments,
      shipment.day ≤ dayAt offset base.millis - count := by
    intro shipment hshipment
    by_contra hnot
    have hle := hplanned.day_le shipment hshipment
    obtain ⟨back, hback⟩ := Int.eq_ofNat_of_zero_le
      (show 0 ≤ dayAt offset base.millis - shipment.day by omega)
    obtain ⟨path, hpath, hsilent⟩ := hbefore back (by omega)
    have hpathday := targetDir_day hzone hplanned.zone_eq hpath
    obtain ⟨hconcerns, hmem⟩ := h.ledger.entry_mem h.arrived hshipment
    have hday : dayAt offset base.millis - (back : ℤ) = shipment.day := by omega
    rw [hday] at hpathday
    rw [Setting.dayDir, ← hpathday] at hmem
    obtain ⟨info, hinfo, hother⟩ := hsilent _ hmem hconcerns
    rw [(h.ledger.readsBack h.inTime hshipment hinfo).1] at hother
    exact absurd hother (by simp)
  rcases hend with ⟨hnone, hdirs⟩ | ⟨path, hpath, htells⟩
  · right
    refine ⟨hnone, fun shipment hshipment => ?_⟩
    have hlast := targetDir_end hzone hplanned.zone_eq hdirs
    have hday := hpassed shipment hshipment
    refine le_trans ?_ hlast
    unfold midnightOf millisPerDay
    omega
  · left
    have hpathday := targetDir_day hzone hplanned.zone_eq hpath
    obtain ⟨taistamp, htaistamp⟩ := getLastShippedTaistamp_isSome htells.ne_nil
    obtain ⟨⟨info, hinfo, rfl⟩, hgreatest⟩ := getLastShippedTaistamp_spec htaistamp
    refine ⟨info.taistamp, htaistamp, fun shipment hshipment => ?_⟩
    -- The greatest file found belongs to a shipment of the day where the search ended.
    obtain ⟨hmatches, entry, hentry, hfile, hplaced⟩ := htells.sound info hinfo
    have htemp : path ≠ s.tempDir := hpathday ▸ s.dayDir_ne_tempDir _
    obtain ⟨found, hmember, hdir, rfl⟩ := (h.ledger.entries_iff path htemp entry
      ⟨hfile, .inl ⟨info, hplaced, hmatches⟩⟩).1 hentry
    have hfoundday : found.day = dayAt offset base.millis - count :=
      s.dayDir_injective (hdir.symm.trans hpathday)
    have hfoundlast := (h.ledger.readsBack h.inTime hmember hplaced).2
    rcases (hpassed shipment hshipment).lt_or_eq with hlt | heq
    · have hearlier := h.ledger.last_lt hshipment hmember (by omega)
      rw [hfoundlast]
      exact hearlier.le
    · obtain ⟨hconcerns, hmem⟩ := h.ledger.entry_mem h.arrived hshipment
      rw [heq, Setting.dayDir, ← hpathday] at hmem
      obtain ⟨other, hother, hlisted⟩ := htells.complete _ hmem hconcerns
      obtain ⟨hmatches, hlast⟩ := h.ledger.readsBack h.inTime hshipment hother
      rw [← hlast]
      exact hgreatest other (hlisted hmatches)

/-- What is held on HDFS outside the directory for temporary files has been shipped. -/
theorem Ledger.of_holds (h : Ledger s offset shipments world) {path : HdfsDir} {entry : Entry}
    {file : File} (hparent : file.parent = s.serviceDir) (hholds : s.Holds world path entry file) :
    ∃ shipment ∈ shipments, path = s.dayDir shipment.day ∧ entry = shipment.entry ∧
      file ∈ shipment.sources := by
  obtain ⟨htemp, hentry, hfile, sources, hcontent, hmem⟩ := hholds
  obtain ⟨shipment, hshipment, hpath, rfl⟩ := (h.entries_iff path htemp entry
    ⟨hfile, .inr ⟨sources, hcontent, file, hmem, hparent⟩⟩).1 hentry
  exact ⟨shipment, hshipment, hpath, rfl, (Content.combined.inj hcontent) ▸ hmem⟩

/-- A round that selects candidates when its files are not stale selects nothing up to a file that
was shipped. -/
theorem Books.select {lookBack base : DateTime} {infos : List PlacedFileInfo} {millis : ℤ}
    (hzone : s.jvm.zone = .forOffsetMillis offset)
    (h : Books s offset shipments (.planning files lookBack base, world))
    (hclock : world.clock ≤ millis) (hfresh : ¬ s.Stale world millis)
    (hfound : s.SearchFound world base lookBack infos)
    (hcandidates : dropWhileThrows (isSettled s.jvm (getLastShippedTaistamp infos)
      (oldestMidnight ⟨millis, s.jvm.zone⟩)) files = .ok candidates) :
    ∀ shipment ∈ shipments, ∀ file ∈ candidates,
      shipment.last.taistamp < file.taistamp := by
  intro shipment hshipment file hfile
  by_contra hnot
  obtain ⟨hlisted, hlooks, hplanned⟩ := h.progress
  have hsuffix := dropWhileThrows_suffix hcandidates
  obtain ⟨_, hkept⟩ := dropWhileThrows_eq_ok hcandidates
  have hsorted := h.arrived.sorted.sublist hlisted.sublist
  have hcandidatesSorted := hsorted.sublist hsuffix.sublist
  obtain ⟨first, hfirst⟩ := Option.isSome_iff_exists.1
    (List.isSome_head?.2 (List.ne_nil_of_mem hfile))
  have hfirstMem := hsuffix.subset (List.mem_of_head? hfirst)
  have hle : first.taistamp ≤ shipment.last.taistamp :=
    (head_taistamp_le hcandidatesSorted hfirst file hfile).trans (not_lt.1 hnot)
  obtain ⟨hgreater, time, htime, hyoung⟩ := isSettled_eq_false (hkept first hfirst)
  -- Either the search found a label no less than any shipped, or every shipment is of a day before
  -- the last one searched.
  rcases h.searchFound hzone hfound with ⟨taistamp, htaistamp, hgreatest⟩ | ⟨rfl, hold⟩
  · exact absurd ((hgreatest shipment hshipment).trans_lt (hgreater taistamp htaistamp))
      hle.not_gt
  · rcases hlooks with ⟨read, hread, rfl⟩ | ⟨head, hhead, htimestamp⟩
    · -- The search went back to the limit, so that the files on HDFS are out of sight.
      rw [hzone, lookBackMidnight_millis] at hold
      have hdays : ∀ shipment ∈ shipments, shipment.day ≤ dayAt offset millis - 4 := by
        intro other hother
        have hday := hold other hother
        have hlater : dayAt offset read ≤ dayAt offset millis := dayAt_mono (hread.trans hclock)
        unfold midnightOf millisPerDay at hday
        omega
      refine hfresh ⟨fun path entry source hparent hholds => ?_, first,
        hlisted.present first hfirstMem, ⟨time, htime, hyoung⟩, ?_⟩
      · obtain ⟨other, hother, hpath, _⟩ := h.ledger.of_holds hparent hholds
        have hday := hdays other hother
        refine ⟨(dayAt offset millis - other.day).toNat, ?_, ?_⟩
        · unfold maxLookBackDays
          omega
        · rw [hpath, Setting.dayDir, Setting.dateBucket_day hzone]
          congr 2
          dsimp only
          omega
      · obtain ⟨hconcerns, hmem⟩ := h.ledger.entry_mem h.arrived hshipment
        have hlast := List.mem_of_getLast? (h.ledger.last_eq shipment hshipment)
        exact ⟨_, _, shipment.last, ⟨s.dayDir_ne_tempDir _, hmem, rfl, _, rfl, hlast⟩,
          (h.arrived.svlogd _
            ((h.ledger.sources_sublist shipment hshipment).subset hlast)).parent_eq, hle⟩
    · -- The search went back to the first local file, which is dated no later than the shipment.
      have hheadMem := hlisted.sublist.subset (List.mem_of_head? hhead)
      have hdated := h.ledger.dated shipment hshipment head hheadMem
        ((head_taistamp_le hsorted hhead first hfirstMem).trans hle) lookBack htimestamp
      have hday := hold shipment hshipment
      have hutc : lookBack.zone = .forOffsetMillis 0 := convertTai64ToTime_zone htimestamp
      rw [toDateMidnight_dayBefore hutc] at hday
      unfold dayAt midnightOf at hday
      unfold dayAt at hdated
      unfold millisPerDay at hdated hday
      omega

/-- A shipment is entered. -/
theorem Books.ship {base : DateTime} {last : File} {name : Text} {world' : World}
    (hzone : s.jvm.zone = .forOffsetMillis offset)
    (h : Books s offset shipments (.selected base candidates, world))
    (hlast : candidates.getLast? = some last)
    (hname : targetName s.jvm last.taistamp s.serviceInfo = .ok name)
    (hadded : Added s (s.hdfsDir base) ⟨name, false, .combined candidates⟩ world world') :
    Books s offset (shipments ++ [⟨dayAt offset base.millis, candidates, last, name⟩])
      (.shipped candidates, world') := by
  obtain ⟨hsublist, hplanned, hgreater⟩ := h.progress
  have hdir : s.hdfsDir base = s.dayDir (dayAt offset base.millis) :=
    Setting.hdfsDir_day (hplanned.zone_eq.trans hzone)
  have hledger := h.ledger
  have hforall : ∀ {property : Shipment → Prop}, (∀ shipment ∈ shipments, property shipment) →
      property ⟨dayAt offset base.millis, candidates, last, name⟩ →
      ∀ shipment ∈ shipments ++ [⟨dayAt offset base.millis, candidates, last, name⟩],
        property shipment := by
    intro property hbefore hnew shipment hshipment
    rcases List.mem_append.1 hshipment with hold | hsingle
    · exact hbefore shipment hold
    · exact List.mem_singleton.1 hsingle ▸ hnew
  have hlocal : world'.localFiles s.serviceDir = world.localFiles s.serviceDir := by
    rw [World.localFiles, World.localFiles, hadded.localDirs_eq]
  refine ⟨⟨?_, ?_, ?_⟩, ⟨?_, ?_⟩, ⟨?_, hforall hledger.name_eq hname,
    hforall hledger.last_eq hlast, ?_, ?_, ?_, ?_⟩, trivial⟩
  · rw [hadded.received_eq]
    exact h.arrived.svlogd
  · rw [hadded.received_eq]
    exact h.arrived.sorted
  · rw [hadded.received_eq, hlocal]
    exact h.arrived.sublist
  · rw [hadded.received_eq, hadded.clock_eq]
    exact h.inTime.dated
  · rw [hadded.received_eq]
    exact h.inTime.readsBack
  · intro path htemp entry hconcerns
    simp only [List.mem_append, List.mem_singleton, or_and_right, exists_or, exists_eq_left]
    rw [← hledger.entries_iff path htemp entry hconcerns]
    -- The directory of the plan gets the new entry, and every other directory stays.
    by_cases hpath : path = s.hdfsDir base
    · rw [hpath, hadded.entries_path, List.mem_append, List.mem_singleton, ← hdir]
      simp [Shipment.entry]
    · rw [hadded.entries_eq path hpath htemp, ← hdir]
      simp [hpath]
  · rw [hadded.received_eq]
    exact hforall hledger.sources_sublist hsublist
  · rw [hadded.clock_eq]
    exact hforall hledger.day_le (dayAt_mono hplanned.clock_le)
  · rw [hadded.received_eq]
    exact hforall hledger.dated (hplanned.dated last hlast)
  · refine List.pairwise_append.2 ⟨hledger.ordered, List.pairwise_singleton _ _, ?_⟩
    intro shipment hshipment other hother
    rw [List.mem_singleton.1 hother]
    exact ⟨hgreater shipment hshipment, hplanned.day_le shipment hshipment⟩

end Selection

section Runs

variable {s : Setting} {offset : ℤ}

/-- Every step of a round keeps the invariant; a shipment is added to the log. -/
theorem RoundStep.books (hzone : s.jvm.zone = .forOffsetMillis offset)
    {state state' : Phase × World} (hstep : RoundStep s.onceTerms state state')
    {shipments : List Shipment} (h : Books s offset shipments state) :
    ∃ shipments', Books s offset shipments' state' := by
  cases hstep with
  | internal hunobserved => exact ⟨shipments, h.calm (.of_unobserved hunobserved)⟩
  | @list world =>
      refine ⟨shipments, h.arrived, h.inTime, h.ledger, ?_⟩
      have hsorted : sortedFiles (world.localFiles s.onceTerms.serviceDir) =
          world.localFiles s.serviceDir := h.arrived.sortedFiles_eq
      constructor
      · rw [hsorted]
        exact h.arrived.sublist
      · intro file hfile
        rwa [hsorted] at hfile
  | @look files minFileDate world millis hclock hdate =>
      have hcalm := h.calm (.clock hclock)
      refine ⟨shipments, hcalm.arrived, hcalm.inTime, hcalm.ledger, hcalm.progress, ?_⟩
      -- The search starts from the limit or from the first local file; `Books.select` needs to
      -- know.
      rcases lookBackDate_cases hdate with hlimit | hfirst
      · exact .inl ⟨millis, le_rfl, hlimit⟩
      · exact .inr hfirst
  | @plan files lookBack world millis hclock =>
      have hcalm := h.calm (.clock hclock)
      obtain ⟨hlisted, hlooks⟩ := hcalm.progress
      refine ⟨shipments, hcalm.arrived, hcalm.inTime, hcalm.ledger, hlisted, hlooks, rfl, le_rfl,
        hcalm.ledger.day_le, ?_⟩
      -- Every label is dated in the past, so no file is of a later day than the plan.
      intro last _ file hfile _ time htime
      obtain ⟨decoded, hdecoded, hle⟩ := hcalm.inTime.dated file hfile
      rw [hdecoded, Except.ok.injEq] at htime
      exact dayAt_mono (htime ▸ hle)
  | @select files lookBack base world millis infos candidates hclock hfresh hfound hcandidates
      hne =>
      have hgreater := h.select hzone hclock hfresh (hfound trivial) hcandidates
      have hcalm := h.calm (.clock hclock)
      obtain ⟨hlisted, _, hplanned⟩ := hcalm.progress
      have hsuffix := dropWhileThrows_suffix hcandidates
      refine ⟨shipments, hcalm.arrived, hcalm.inTime, hcalm.ledger,
        hsuffix.sublist.trans hlisted.sublist, ⟨hplanned.zone_eq, hplanned.clock_le,
          hplanned.day_le, fun last hlast => hplanned.dated last ?_⟩, hgreater⟩
      obtain ⟨before, rfl⟩ := hsuffix
      rw [List.getLast?_append, hlast]
      rfl
  | ship hlast hname hadded => exact ⟨_, h.ship hzone hlast hname hadded⟩
  | fail hclock =>
      have hcalm := h.calm (.clock hclock)
      exact ⟨shipments, hcalm.arrived, hcalm.inTime, hcalm.ledger, trivial⟩
  | cleanShipped _ _ => exact ⟨shipments, h.arrived, h.inTime, h.ledger, trivial⟩
  | cleanOld => exact ⟨shipments, h.arrived, h.inTime, h.ledger, trivial⟩
  | delete _ _ _ => exact ⟨shipments, h.removeLocal⟩

/-- At the beginning nothing has arrived. -/
theorem Setting.Untouched.arrived {world : World} (h : s.Untouched world) : s.Arrived world where
  svlogd := by simp [h.received_eq]
  sorted := by simp [h.received_eq]
  sublist := by simp [h.localFiles_eq]

/-- The invariant holds at the beginning. -/
theorem Setting.Untouched.books {world : World} (h : s.Untouched world) :
    Books s offset [] (.ready, world) where
  arrived := h.arrived
  inTime := ⟨by simp [h.received_eq], by simp [h.received_eq]⟩
  ledger := by
    refine ⟨?_, by simp, by simp, by simp, by simp, by simp, List.Pairwise.nil⟩
    intro path _ entry hconcerns
    constructor
    · exact fun hentry => absurd hconcerns (h.entries path entry hentry)
    · simp
  progress := trivial

/-- A log of shipments lists no file twice. -/
theorem Books.atMostOnce {state : Phase × World} {shipments : List Shipment}
    (h : Books s offset shipments state) : s.AtMostOnce state.2 := by
  intro file path path' entry entry' hparent hholds hholds'
  obtain ⟨first, hfirst, rfl, rfl, hmem⟩ := h.ledger.of_holds hparent hholds
  obtain ⟨second, hsecond, rfl, rfl, hmem'⟩ := h.ledger.of_holds hparent hholds'
  have hupTo : ∀ shipment ∈ shipments, file ∈ shipment.sources →
      file.taistamp ≤ shipment.last.taistamp := fun shipment hshipment hfile =>
    taistamp_le_getLast (h.arrived.sorted.sublist (h.ledger.sources_sublist shipment hshipment))
      (h.ledger.last_eq shipment hshipment) file hfile
  have hsame : first = second := by
    by_contra hne
    have hapart : shipments.Pairwise fun one other =>
        ¬ (file ∈ one.sources ∧ file ∈ other.sources) :=
      h.ledger.ordered.imp_of_mem fun {one other} hone hother hordered hboth =>
        absurd (hordered.1 file hboth.2) (hupTo one hone hboth.1).not_gt
    have hsymm : Std.Symm fun one other : Shipment =>
        ¬ (file ∈ one.sources ∧ file ∈ other.sources) :=
      ⟨fun _ _ hnot hboth => hnot hboth.symm⟩
    exact hapart.forall hfirst hsecond hne ⟨hmem, hmem'⟩
  rw [hsame]
  exact ⟨rfl, rfl⟩

/-- In a run of arrivals in time, of rounds of which any step can fail, and of what happens
elsewhere, no file is shipped twice, as long as no round selects candidates from stale files. -/
theorem shipped_atMostOnce (hzone : s.jvm.zone = .forOffsetMillis offset) {start : World}
    (hstart : s.Untouched start) {labels : List s.onceTerms.actRounds.Label}
    {result : Attempt Unit} {config : s.onceTerms.actRounds.Config}
    (hadmits : s.onceTerms.actRounds.Admits s.onceTerms.Meets labels (.done result, start))
    (hrun : s.onceTerms.actRounds.run labels (.done result, start) = some config) :
    s.AtMostOnce config.2 := by
  obtain ⟨phase, hsteps⟩ := actRounds_follows hadmits hrun
  have hinvariant : ∃ shipments, Books s offset shipments (phase, config.2) := by
    refine Rounds.SystemStep.invariant
      (motive := fun state => ∃ shipments, Books s offset shipments state) ?_ ?_ ?_ hsteps
      ⟨[], hstart.books⟩
    · intro phase world world' hhappens hbefore
      obtain ⟨shipments, h⟩ := hbefore
      cases hhappens.interference with
      | elsewhere helsewhere => exact ⟨shipments, h.calm (.of_elsewhere helsewhere)⟩
      | arrival harrives => exact ⟨shipments, h.receive harrives.1 harrives.2⟩
    · intro state state' hrestart hbefore
      obtain ⟨shipments, h⟩ := hbefore
      rw [hrestart]
      have hcalm := h.calm (.beginRound state.2)
      exact ⟨shipments, hcalm.arrived, hcalm.inTime, hcalm.ledger, trivial⟩
    · intro state state' hstep hbefore
      obtain ⟨shipments, h⟩ := hbefore
      exact hstep.books hzone h
  obtain ⟨shipments, h⟩ := hinvariant
  exact h.atMostOnce

/-- When host and service have no line terminators and the host no comma, what the service ships is
read back as its own. -/
theorem Setting.readsBack_of_oneLine {file : File} {time : DateTime}
    (htime : fileTime s.jvm file = .ok time)
    (hyear : 0 ≤ time.toLocalDate.year ∧ time.toLocalDate.year ≤ 9999)
    (hservice : OneLine s.serviceInfo.serviceName) (hhost : OneLine s.serviceInfo.hostName)
    (hcomma : 44 ∉ s.serviceInfo.hostName) (hhex : IsHex file.taistamp) : s.ReadsBack file := by
  intro name info hname hinfo
  have hplaced := getPlacedFileInfo_targetName [] htime hname hyear hservice hhost hcomma hhex
  rw [getPlacedFileInfo_eq_ok_iff, hinfo, Option.some.injEq] at hplaced
  rw [hplaced, placedMatches, decide_eq_true_eq]
  exact ⟨rfl, rfl⟩

/-- The files of the examples can arrive in order. -/
theorem arrivesInTime_sampleDates {file : File} {millis : ℤ} (h : (file, millis) ∈ sampleDates)
    {world : World} (hclock : millis ≤ world.clock)
    (hgreater : ∀ other ∈ world.received, other.taistamp < file.taistamp) :
    Setting.sample.ArrivesInTime world file :=
  ⟨svlogd_sampleDates h, hgreater, _, fileTime_sampleDates h, hclock⟩

/-- They read back as files of their service. -/
theorem readsBack_sampleDates {file : File} {millis : ℤ} (h : (file, millis) ∈ sampleDates) :
    Setting.sample.ReadsBack file := by
  have hall : ∀ dated ∈ sampleDates, IsHex dated.1.taistamp ∧
      0 ≤ (⟨dated.2, .utc⟩ : DateTime).toLocalDate.year ∧
      (⟨dated.2, .utc⟩ : DateTime).toLocalDate.year ≤ 9999 := by decide
  obtain ⟨hhex, hyear⟩ := hall _ h
  exact Setting.readsBack_of_oneLine (fileTime_sampleDates h) hyear (by decide) (by decide)
    (by decide) hhex

/-- Without files on HDFS nothing is stale. -/
theorem Setting.not_stale_of_empty {world : World} {millis : ℤ}
    (h : world.hdfs = fun _ => none) : ¬ s.Stale world millis := by
  rintro ⟨_, file, _, _, path, entry, last, hholds, _⟩
  have hentry := hholds.2.1
  rw [World.entries, h] at hentry
  simp at hentry

/-- Nor is it while a file of the service on HDFS is of one of the last four days. -/
theorem Setting.not_stale_of_recent {world : World} {millis day : ℤ} {entry : Entry} {source : File}
    (hzone : s.jvm.zone = .forOffsetMillis offset) (hparent : source.parent = s.serviceDir)
    (hholds : s.Holds world (s.dayDir day) entry source) (hday : dayAt offset millis - 4 < day) :
    ¬ s.Stale world millis := by
  rintro ⟨hold, _⟩
  obtain ⟨days, hdays, hpath⟩ := hold _ _ source hparent hholds
  rw [Setting.dateBucket_day hzone] at hpath
  have hsame := s.dayDir_injective hpath
  unfold maxLookBackDays at hdays
  dsimp only at hsame
  omega

/-- A part of such a run in which candidates are selected first and nowhere else. -/
theorem admits_select {labels rest : List Setting.sample.actRounds.Label} {millis : ℤ}
    {start config : Setting.sample.actRounds.Config}
    (hrun : Setting.sample.actRounds.run labels start = some config)
    (hrest : ((Setting.sample.actRounds.run labels start).bind
      (Setting.sample.actRounds.step (.answer (.reads millis)))).all
        (Setting.sample.actRounds.passes (Setting.sample.orderly sampleDates false) rest) = true)
    (hfresh : ¬ Setting.sample.Stale config.2 millis) :
    Setting.sample.onceTerms.actRounds.Admits Setting.sample.onceTerms.Meets
      (.answer (.reads millis) :: rest) config := by
  refine ⟨?_, fun config' hstep => ?_⟩
  · obtain ⟨program, world⟩ := config
    cases program with
    | done result => trivial
    | request command next =>
        rintro read _ hread
        obtain rfl := Outcome.reads.inj hread
        exact hfresh
  · rw [hrun, Option.bind_some] at hrest
    exact Terms.admits_orderly (t := Setting.sample.onceTerms)
      (fun _ _ h _ hclock hgreater =>
        ⟨arrivesInTime_sampleDates h hclock hgreater, readsBack_sampleDates h⟩) (by simp)
      (Option.all_eq_true _ _ |>.1 hrest config' hstep)

/-- The first part of the run of two days, in which nothing is selected. -/
theorem admits_firstPlan : Setting.sample.onceTerms.actRounds.Admits
    Setting.sample.onceTerms.Meets firstPlan (.done (.ok ()), .initial 1400000000000) := by
  have hpasses : Setting.sample.actRounds.passes (Setting.sample.orderly sampleDates false)
      firstPlan (.done (.ok ()), .initial 1400000000000) = true := by decide +kernel
  exact Terms.admits_orderly (t := Setting.sample.onceTerms)
    (fun _ _ h _ hclock hgreater =>
      ⟨arrivesInTime_sampleDates h hclock hgreater, readsBack_sampleDates h⟩) (by simp) hpasses

/-- Nothing is on HDFS at the first selection. -/
theorem admits_firstShip {config : Setting.sample.actRounds.Config}
    (hrun : Setting.sample.actRounds.run firstPlan (.done (.ok ()), .initial 1400000000000) =
      some config) :
    Setting.sample.onceTerms.actRounds.Admits Setting.sample.onceTerms.Meets firstShip config := by
  have hempty : (Setting.sample.actRounds.run firstPlan
      (.done (.ok ()), .initial 1400000000000)).map (fun config => config.2.hdfs) =
        some fun _ => none := rfl
  rw [hrun, Option.map_some, Option.some.injEq] at hempty
  exact admits_select hrun (by decide +kernel) (Setting.not_stale_of_empty hempty)

/-- Later a file of the first day is on HDFS. -/
theorem admits_of_shipped {labels rest : List Setting.sample.actRounds.Label} {millis : ℤ}
    {config : Setting.sample.actRounds.Config}
    (hrun : Setting.sample.actRounds.run labels (.done (.ok ()), .initial 1400000000000) =
      some config)
    (hplaced : (Setting.sample.actRounds.run labels
      (.done (.ok ()), .initial 1400000000000)).any (fun config =>
        ⟨text "2014,05,13,web,node1,4000000053724e0000000000.seq", false,
          .combined [sampleFile (text "@4000000053724e0000000000.s")]⟩ ∈
            config.2.entries (text "/logs/2014/05-13")) = true)
    (hrest : ((Setting.sample.actRounds.run labels
      (.done (.ok ()), .initial 1400000000000)).bind
        (Setting.sample.actRounds.step (.answer (.reads millis)))).all
          (Setting.sample.actRounds.passes (Setting.sample.orderly sampleDates false) rest) = true)
    (hmillis : dayAt 0 millis - 4 < 16203) :
    Setting.sample.onceTerms.actRounds.Admits Setting.sample.onceTerms.Meets
      (.answer (.reads millis) :: rest) config := by
  rw [hrun, Option.any_some, decide_eq_true_eq] at hplaced
  have hholds : Setting.sample.Holds config.2 (Setting.sample.dayDir 16203) _
      (sampleFile (text "@4000000053724e0000000000.s")) :=
    ⟨Setting.sample.dayDir_ne_tempDir _, hplaced, rfl, _, rfl, List.mem_cons_self⟩
  exact admits_select hrun hrest (Setting.not_stale_of_recent
    (show Setting.sample.jvm.zone = .forOffsetMillis 0 from rfl) rfl hholds hmillis)

/-- In the rounds of two days every file is shipped once. -/
theorem shipped_atMostOnce_arrival : ∃ config,
    Setting.sample.onceTerms.actRounds.run daysRun (.done (.ok ()), .initial 1400000000000) =
      some config ∧ shipsDaily config = true ∧ Setting.sample.AtMostOnce config.2 := by
  obtain ⟨config, hrun, hships⟩ := (Option.any_eq_true _ _).1 daysRun_ships
  refine ⟨config, hrun, hships, shipped_atMostOnce (show Setting.sample.jvm.zone =
    .forOffsetMillis 0 from rfl) ⟨rfl, rfl, by simp [World.initial, World.entries]⟩ ?_ hrun⟩
  refine Rounds.admits_append (Rounds.admits_append (Rounds.admits_append admits_firstPlan
    fun _ => admits_firstShip) fun _ hrun => ?_) fun _ hrun => ?_
  · exact admits_of_shipped hrun (by decide +kernel) (by decide +kernel) (by decide)
  · exact admits_of_shipped hrun (by decide +kernel) (by decide +kernel) (by decide)

/-- A file arrives and is shipped; four days later another round starts. -/
def idleRun : List Setting.sample.inTimeTerms.actRounds.Label :=
  Setting.sample.arrivalRun (sampleFile (text "@4000000053724e0000000000.s"))
      (smoothOutcomes 1400000000000 1 (text "combined") (text "random")) ++
    .event (.advance 1400345600000) :: .start ::
      Setting.sample.answers
        (smoothOutcomes 1400345600000 4 (text "combined2") (text "random2"))

/-- The second round ships the file again: it does not look as far back on HDFS as the file is
dated. -/
theorem idle_shippedTwice : ∃ config,
    Setting.sample.inTimeTerms.actRounds.Admits Setting.sample.inTimeTerms.Meets idleRun
        (.done (.ok ()), .initial 1400000000000) ∧
      Setting.sample.inTimeTerms.actRounds.run idleRun
        (.done (.ok ()), .initial 1400000000000) = some config ∧
      Setting.sample.Untouched (.initial 1400000000000) ∧
      ¬ Setting.sample.AtMostOnce config.2 := by
  have hrun : (Setting.sample.inTimeTerms.actRounds.run idleRun
      (.done (.ok ()), .initial 1400000000000)).any (fun config =>
        [text "/logs/2014/05-13", text "/logs/2014/05-17"].all fun path =>
          ⟨text "2014,05,13,web,node1,4000000053724e0000000000.seq", false,
            .combined [sampleFile (text "@4000000053724e0000000000.s")]⟩ ∈
              config.2.entries path) = true := by decide
  obtain ⟨config, hrun, hentries⟩ := (Option.any_eq_true _ _).1 hrun
  refine ⟨config, ?_, hrun, ⟨rfl, rfl, by simp [World.initial, World.entries]⟩, ?_⟩
  · exact Terms.admits_orderly (t := Setting.sample.inTimeTerms)
      (fun _ _ h _ hclock hgreater => arrivesInTime_sampleDates h hclock hgreater)
      (fun _ _ _ => trivial) (show Setting.sample.actRounds.passes
        (Setting.sample.orderly sampleDates true) idleRun _ = true by decide)
  · intro honce
    simp only [List.all_cons, List.all_nil, Bool.and_true, Bool.and_eq_true,
      decide_eq_true_eq] at hentries
    have hpaths := (honce _ _ _ _ _ rfl
      ⟨by decide, hentries.1, rfl, _, rfl, List.mem_singleton.2 rfl⟩
      ⟨by decide, hentries.2, rfl, _, rfl, List.mem_singleton.2 rfl⟩).1
    exact absurd hpaths (by decide)

end Runs

end Barn.Hdfs
