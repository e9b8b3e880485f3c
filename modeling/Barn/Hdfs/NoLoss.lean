import Barn.Hdfs.AllOrNothing
import Barn.Hdfs.AtMostOnce

/-!
# No file is lost

In a time zone of fixed offset every file that arrived in order is on HDFS, or waits on the local
disk and will be selected, or is older than `maxLookBackDays`. The invariant `Safe` follows a file
through listing, selection, shipping and cleanup; read `no_file_lost` last.
-/

namespace Barn.Hdfs

open Interaction Relation

namespace Setting

variable (s : Setting)

/-- The file is in some file on HDFS. -/
def Stored (world : World) (file : File) : Prop :=
  ∃ path entry, s.Holds world path entry file

/-- The file is dated more than `maxLookBackDays` before the current time. -/
def Aged (world : World) (file : File) : Prop :=
  ∃ time, fileTime s.jvm file = .ok time ∧
    time.isBefore (DateTime.minusDays maxLookBackDays ⟨world.clock, s.jvm.zone⟩) = true

/-- The file is greater than every last taistamp that planning the next ship can compute. -/
def Selectable (world : World) (file : File) : Prop :=
  ∀ totalReadySize maxReadySize lookBack plan world', Runs machine
    (planNextShip s.jvm s.serviceDir s.serviceInfo totalReadySize maxReadySize
      s.barnConf.hdfsLogDir s.barnConf.shipInterval lookBack)
    (s.beginRound world) (.ok plan) world' →
      ∀ taistamp, plan.lastTaistamp = some taistamp → taistamp < file.taistamp

/-- The file is not lost. -/
def NotLost (world : World) (file : File) : Prop :=
  s.Stored world file ∨
    (file ∈ world.localFiles s.serviceDir ∧ s.Selectable world file) ∨ s.Aged world file

/-- A file of svlogd that arrives in order, later than the last entry of the conversion table. -/
structure ArrivesLater (offset : ℤ) (world : World) (file : File) : Prop where
  svlogd : s.IsSvlogdFile file
  wellFormed : IsTai64n file.taistamp
  after_last : IsAfterLast offset file.taistamp
  greater : ∀ other ∈ world.received, other.taistamp < file.taistamp

/-- Moreover the milliseconds up to its time fit a `long`. -/
structure ArrivesInOrder (offset : ℤ) (world : World) (file : File) : Prop
    extends s.ArrivesLater offset world file where
  low : -2 ^ 63 ≤ labelMillis file.taistamp
  high : labelMillis file.taistamp < 2 ^ 63

/-- Files arrive in order, and nothing is said about the selection of candidates. -/
def orderTerms (offset : ℤ) : Terms where
  toSetting := s
  trusted := True
  mayRead := fun _ _ => True
  mayArrive := s.ArrivesInOrder offset

/-- The name of the entry reads back as one of the service, with this information. -/
def Marks (world : World) (info : PlacedFileInfo) : Prop :=
  ∃ path entry, path ≠ s.tempDir ∧ entry ∈ world.entries path ∧ entry.isDir = false ∧
    placedInfo entry.getName = some info ∧ placedMatches info s.serviceInfo = true

/-- The file is greater than everything on HDFS that reads back as a file of the service. -/
def Unmarked (world : World) (file : File) : Prop :=
  ∀ info, s.Marks world info → info.taistamp < file.taistamp

/-- The file need not be kept any more. -/
def Done (world : World) (file : File) : Prop :=
  s.Stored world file ∨ s.Aged world file

end Setting

section Invariant

variable (s : Setting) (world : World)

/-- Every local file is in the listing, or it arrived after it. -/
structure Covers (files : List File) : Prop where
  sublist : files.Sublist world.received
  covers : ∀ file ∈ world.localFiles s.serviceDir,
    file ∈ files ∨ ∀ listed ∈ files, listed.taistamp < file.taistamp

/-- Every file that must be kept is a candidate, or greater than all candidates. -/
structure Selects (candidates : List File) : Prop where
  sublist : candidates.Sublist world.received
  covers : ∀ file ∈ world.received, s.Done world file ∨
    file ∈ candidates ∨ ∀ candidate ∈ candidates, candidate.taistamp < file.taistamp

/-- Every file that must be kept is greater than the candidates that were shipped. -/
structure Ships (candidates : List File) : Prop where
  sublist : candidates.Sublist world.received
  covers : ∀ file ∈ world.received, s.Done world file ∨
    ∀ candidate ∈ candidates, candidate.taistamp < file.taistamp

/-- Every file dated before the limit need not be kept, and this will remain so. -/
structure Limits (limit : DateTime) : Prop where
  covers : ∀ file ∈ world.received, ∀ time, fileTime s.jvm file = .ok time →
    time.isBefore limit = true → s.Done world file
  origin : (∃ last ∈ world.received, fileTime s.jvm last = .ok limit) ∨
    limit.millis ≤ world.clock - maxLookBackDays * millisPerDay

/-- What holds in each phase of a round. -/
def Covered : Phase → Prop
  | .listed files => Covers s world files
  | .looking files _ => Covers s world files
  | .planning files _ base => Covers s world files ∧ base.zone = s.jvm.zone
  | .selected _ candidates => Selects s world candidates
  | .shipped candidates => Ships s world candidates
  | .failed now => now.zone = s.jvm.zone ∧ now.millis ≤ world.clock
  | .cleaning _ limit _ => Limits s world limit
  | .ready => True

/-- The invariant of the rounds. -/
structure Safe (state : Phase × World) : Prop where
  arrived : s.Arrived state.2
  dated : ∀ file ∈ state.2.received,
    fileTime s.jvm file = .ok ⟨labelMillis file.taistamp - 35000, .utc⟩
  wellFormed : ∀ file ∈ state.2.received, IsTai64n file.taistamp
  marks : ∀ info, s.Marks state.2 info → ∃ file ∈ state.2.received,
    info.taistamp = file.taistamp
  kept : ∀ file ∈ state.2.received, s.Done state.2 file ∨
    (file ∈ state.2.localFiles s.serviceDir ∧ s.Unmarked state.2 file)
  covered : Covered s state.2 state.1

end Invariant

section Calm

variable {s : Setting} {offset : ℤ} {world world' : World} {file : File} {phase : Phase}

/-- What marks the service is the same after a calm change. -/
theorem Setting.Calm.marks_iff (h : s.Calm world world') (info : PlacedFileInfo) :
    s.Marks world' info ↔ s.Marks world info := by
  constructor
  · intro h
    obtain ⟨path, entry, hpath, hentry, hfile, hplaced, hmatches⟩ := h
    have hconcerns : s.Concerns entry := ⟨hfile, .inl ⟨info, hplaced, hmatches⟩⟩
    exact ⟨path, entry, hpath, (h.sameConcerns path hpath entry hconcerns).1 hentry, hfile,
      hplaced, hmatches⟩
  · intro h
    obtain ⟨path, entry, hpath, hentry, hfile, hplaced, hmatches⟩ := h
    have hconcerns : s.Concerns entry := ⟨hfile, .inl ⟨info, hplaced, hmatches⟩⟩
    exact ⟨path, entry, hpath, (h.sameConcerns path hpath entry hconcerns).2 hentry, hfile,
      hplaced, hmatches⟩

/-- A stored file stays stored after a calm change. -/
theorem Setting.Calm.stored (h : s.Calm world world') (hparent : file.parent = s.serviceDir)
    (hstored : s.Stored world file) : s.Stored world' file := by
  obtain ⟨path, entry, hpath, hentry, hfile, sources, hcontent, hmem⟩ := hstored
  have hconcerns : s.Concerns entry := ⟨hfile, .inr ⟨sources, hcontent, file, hmem, hparent⟩⟩
  exact ⟨path, entry, hpath, (h.sameConcerns path hpath entry hconcerns).2 hentry, hfile, sources,
    hcontent, hmem⟩

/-- At a fixed offset, going back days is a subtraction. -/
theorem minusDays_millis (hzone : s.jvm.zone = .forOffsetMillis offset) (days : ℕ) (millis : ℤ) :
    (DateTime.minusDays days ⟨millis, s.jvm.zone⟩).millis = millis - days * millisPerDay := by
  unfold DateTime.minusDays
  split
  · next hzero => simp [hzero]
  · rw [hzone]
    rfl

/-- A file dated so long ago is old. -/
theorem aged_of_millis (hzone : s.jvm.zone = .forOffsetMillis offset) {time : DateTime}
    (htime : fileTime s.jvm file = .ok time)
    (h : time.millis < world.clock - maxLookBackDays * millisPerDay) : s.Aged world file := by
  refine ⟨time, htime, ?_⟩
  rw [DateTime.isBefore, minusDays_millis hzone, decide_eq_true_eq]
  exact h

/-- An old file is dated so long ago. -/
theorem Setting.Aged.millis (hzone : s.jvm.zone = .forOffsetMillis offset)
    (h : s.Aged world file) : ∃ time, fileTime s.jvm file = .ok time ∧
      time.millis < world.clock - maxLookBackDays * millisPerDay := by
  obtain ⟨time, htime, hbefore⟩ := h
  rw [DateTime.isBefore, minusDays_millis hzone, decide_eq_true_eq] at hbefore
  exact ⟨time, htime, hbefore⟩

/-- An old file stays old. -/
theorem Setting.Aged.later (hzone : s.jvm.zone = .forOffsetMillis offset)
    (h : s.Aged world file) (hclock : world.clock ≤ world'.clock) : s.Aged world' file := by
  obtain ⟨time, htime, hmillis⟩ := h.millis hzone
  exact aged_of_millis hzone htime (by omega)

/-- A file that need not be kept is not needed after a calm change either. -/
theorem Setting.Done.calm (hzone : s.jvm.zone = .forOffsetMillis offset) (h : s.Done world file)
    (hcalm : s.Calm world world') (hparent : file.parent = s.serviceDir) : s.Done world' file :=
  h.imp (hcalm.stored hparent) fun haged => haged.later hzone hcalm.clock_le

/-- Calm changes keep the invariant. -/
theorem Safe.calm (hzone : s.jvm.zone = .forOffsetMillis offset) (h : Safe s (phase, world))
    (hcalm : s.Calm world world') : Safe s (phase, world') := by
  have hdone : ∀ file ∈ world.received, s.Done world file → s.Done world' file :=
    fun file hfile hdone => hdone.calm hzone hcalm (h.arrived.svlogd file hfile).parent_eq
  have hreceived : world'.received = world.received := hcalm.received_eq
  have hlocal : world'.localFiles s.serviceDir = world.localFiles s.serviceDir :=
    hcalm.localFiles_eq
  refine ⟨h.arrived.calm hcalm, ?_, ?_, ?_, ?_, ?_⟩
  · rw [hreceived]
    exact h.dated
  · rw [hreceived]
    exact h.wellFormed
  · intro info hmarks
    rw [hreceived]
    exact h.marks info ((hcalm.marks_iff info).1 hmarks)
  · intro file hfile
    rw [hreceived] at hfile
    rw [hlocal]
    refine (h.kept file hfile).imp (hdone file hfile) fun hkept => ⟨hkept.1, fun info hmarks => ?_⟩
    exact hkept.2 info ((hcalm.marks_iff info).1 hmarks)
  · -- What a phase knows beyond that: about files that are done, the arrivals and the clock.
    have hcovered := h.covered
    have hcovers : ∀ files, Covers s world files → Covers s world' files := by
      intro files h
      obtain ⟨hsublist, hcovers⟩ := h
      refine ⟨?_, ?_⟩
      · rw [hreceived]
        exact hsublist
      · rw [hlocal]
        exact hcovers
    cases phase with
    | listed files => exact hcovers files hcovered
    | looking files lookBack => exact hcovers files hcovered
    | planning files lookBack base => exact ⟨hcovers files hcovered.1, hcovered.2⟩
    | selected base candidates =>
        refine ⟨?_, fun file hfile => ?_⟩
        · rw [hreceived]
          exact hcovered.sublist
        · rw [hreceived] at hfile
          exact (hcovered.covers file hfile).imp_left (hdone file hfile)
    | shipped candidates =>
        refine ⟨?_, fun file hfile => ?_⟩
        · rw [hreceived]
          exact hcovered.sublist
        · rw [hreceived] at hfile
          exact (hcovered.covers file hfile).imp_left (hdone file hfile)
    | failed now => exact ⟨hcovered.1, hcovered.2.trans hcalm.clock_le⟩
    | cleaning shipped limit files =>
        refine ⟨fun file hfile time htime hbefore => ?_, ?_⟩
        · rw [hreceived] at hfile
          exact hdone file hfile (hcovered.covers file hfile time htime hbefore)
        · rw [hreceived]
          exact hcovered.origin.imp_right fun hlimit =>
            hlimit.trans (sub_le_sub_right hcalm.clock_le _)
    | ready => trivial

end Calm

section Steps

variable {s : Setting} {offset : ℤ} {world : World} {file : File} {phase : Phase}

/-- The date of a file that arrives in order. -/
theorem Setting.ArrivesInOrder.fileTime_eq (hzone : s.jvm.zone = .forOffsetMillis offset)
    (h : s.ArrivesInOrder offset world file) :
    fileTime s.jvm file = .ok ⟨labelMillis file.taistamp - 35000, .utc⟩ := by
  obtain ⟨label, suffix, hname, hlength, hhex, hsuffix⟩ := h.svlogd.name
  have htaistamp := taistamp_of_name hname hsuffix
  have hlate : IsLate offset file.taistamp := ⟨h.after_last, h.low, h.high⟩
  rw [htaistamp] at hlate
  have htime := convertTai64ToTime_late hzone hlength hhex hlate
  rw [← htaistamp] at htime
  exact htime

/-- Files in order are dated in order. -/
theorem Safe.millis_le {state : Phase × World} (h : Safe s state) {first second : File}
    (hfirst : first ∈ state.2.received) (hsecond : second ∈ state.2.received)
    (hle : first.taistamp ≤ second.taistamp) {time time' : DateTime}
    (htime : fileTime s.jvm first = .ok time) (htime' : fileTime s.jvm second = .ok time') :
    time.millis ≤ time'.millis := by
  have hlabels : labelMillis first.taistamp ≤ labelMillis second.taistamp := by
    rcases hle.lt_or_eq with hlt | heq
    · exact labelMillis_le_of_lt (h.wellFormed first hfirst) (h.wellFormed second hsecond) hlt
    · rw [heq]
  rw [h.dated first hfirst, Except.ok.injEq] at htime
  rw [h.dated second hsecond, Except.ok.injEq] at htime'
  rw [← htime, ← htime']
  exact sub_le_sub_right hlabels _

/-- A file that arrives in order keeps the invariant. -/
theorem Safe.receive (hzone : s.jvm.zone = .forOffsetMillis offset) (h : Safe s (phase, world))
    (hfile : s.ArrivesInOrder offset world file) : Safe s (phase, world.receive file) := by
  have hlocal : (world.receive file).localFiles s.serviceDir =
      world.localFiles s.serviceDir ++ [file] := Setting.localFiles_receive hfile.svlogd.parent_eq
  have hgreater : ∀ files : List File, files.Sublist world.received → ∀ listed ∈ files,
      listed.taistamp < file.taistamp :=
    fun files hfiles listed hlisted => hfile.greater listed (hfiles.subset hlisted)
  have hforall : ∀ {property : File → Prop}, (∀ other ∈ world.received, property other) →
      property file → ∀ other ∈ (world.receive file).received, property other := by
    intro property hold hnew other hother
    rcases List.mem_append.1 hother with hmem | hsingle
    · exact hold other hmem
    · exact List.mem_singleton.1 hsingle ▸ hnew
  -- Marks are at labels that have arrived, and this one is greater than all of them.
  have hunmarked : s.Unmarked (world.receive file) file := by
    intro info hmarks
    obtain ⟨other, hother, heq⟩ := h.marks info hmarks
    rw [heq]
    exact hfile.greater other hother
  -- What is later than the listing may be missing in it.
  have hcovers : ∀ files, Covers s world files → Covers s (world.receive file) files := by
    intro files h
    obtain ⟨hsublist, hcovers⟩ := h
    refine ⟨hsublist.trans (List.sublist_append_left _ _), ?_⟩
    rw [hlocal]
    intro other hother
    rcases List.mem_append.1 hother with hmem | hsingle
    · exact hcovers other hmem
    · exact .inr (List.mem_singleton.1 hsingle ▸ hgreater files hsublist)
  refine ⟨h.arrived.receive hfile.svlogd hfile.greater,
    hforall h.dated (hfile.fileTime_eq hzone), hforall h.wellFormed hfile.wellFormed, ?_, ?_, ?_⟩
  · intro info hmarks
    obtain ⟨other, hother, heq⟩ := h.marks info hmarks
    exact ⟨other, List.mem_append_left _ hother, heq⟩
  · rw [hlocal]
    refine hforall (fun other hother => (h.kept other hother).imp_right fun hkept => ?_)
      (.inr ⟨by simp, hunmarked⟩)
    exact ⟨List.mem_append_left _ hkept.1, hkept.2⟩
  · have hcovered := h.covered
    cases phase with
    | listed files => exact hcovers files hcovered
    | looking files lookBack => exact hcovers files hcovered
    | planning files lookBack base => exact ⟨hcovers files hcovered.1, hcovered.2⟩
    | selected base candidates =>
        exact ⟨hcovered.sublist.trans (List.sublist_append_left _ _),
          hforall hcovered.covers (.inr (.inr (hgreater _ hcovered.sublist)))⟩
    | shipped candidates =>
        exact ⟨hcovered.sublist.trans (List.sublist_append_left _ _),
          hforall hcovered.covers (.inr (hgreater _ hcovered.sublist))⟩
    | failed now => exact hcovered
    | cleaning shipped limit files =>
        refine ⟨hforall hcovered.covers fun time htime hbefore => ?_,
          hcovered.origin.imp_left fun ⟨last, hlast, htime⟩ =>
            ⟨last, List.mem_append_left _ hlast, htime⟩⟩
        rw [DateTime.isBefore, decide_eq_true_eq] at hbefore
        rcases hcovered.origin with ⟨last, hlast, hlimit⟩ | hlimit
        · -- The limit is the date of an earlier file, so the new one is not dated before it.
          have hlabels := labelMillis_le_of_lt (h.wellFormed last hlast) hfile.wellFormed
            (hfile.greater last hlast)
          rw [hfile.fileTime_eq hzone, Except.ok.injEq] at htime
          rw [h.dated last hlast, Except.ok.injEq] at hlimit
          rw [← htime, ← hlimit] at hbefore
          dsimp only at hbefore
          omega
        · exact .inr (aged_of_millis hzone htime (hbefore.trans_le hlimit))
    | ready => trivial

/-- Selecting candidates leaves out only what need not be kept. -/
theorem Safe.select (hzone : s.jvm.zone = .forOffsetMillis offset) {lookBack base : DateTime}
    {infos : List PlacedFileInfo} {files candidates : List File} {millis : ℤ}
    (h : Safe s (.planning files lookBack base, world)) (hclock : world.clock ≤ millis)
    (hfound : s.SearchFound world base lookBack infos)
    (hcandidates : dropWhileThrows (isSettled s.jvm (getLastShippedTaistamp infos)
      (oldestMidnight ⟨millis, s.jvm.zone⟩)) files = .ok candidates) :
    Selects s { world with clock := millis } candidates := by
  obtain ⟨hcovers, hbase⟩ := h.covered
  obtain ⟨⟨dropped, rfl, hsettled⟩, _⟩ := dropWhileThrows_eq_ok hcandidates
  refine ⟨(List.sublist_append_right _ _).trans hcovers.sublist, fun file hfile => ?_⟩
  rcases h.kept file hfile with hdone | ⟨hlocal, hunmarked⟩
  · exact .inl (hdone.calm hzone (.clock hclock) (h.arrived.svlogd file hfile).parent_eq)
  · rcases hcovers.covers file hlocal with hlisted | hlater
    · rcases List.mem_append.1 hlisted with hdropped | hcandidate
      · rcases isSettled_eq_true (hsettled file hdropped) with ⟨taistamp, hlast, hle⟩ | hold
        · -- The last taistamp is in a name on HDFS, and the file is greater than all of those.
          obtain ⟨⟨info, hinfo, rfl⟩, _⟩ := getLastShippedTaistamp_spec hlast
          refine absurd (hunmarked info ?_) hle.not_gt
          obtain ⟨count, _, ⟨hnil, _⟩ | ⟨path, hpath, htells⟩⟩ := hfound
          · rw [hnil] at hinfo
            simp at hinfo
          · obtain ⟨hmatches, entry, hentry, hfile, hplaced⟩ := htells.sound info hinfo
            refine ⟨path, entry, ?_, hentry, hfile, hplaced, hmatches⟩
            rw [targetDir_day hzone hbase hpath]
            exact s.dayDir_ne_tempDir _
        · obtain ⟨time, htime, hbefore⟩ := hold
          refine .inl (.inr (aged_of_millis hzone htime ?_))
          rw [DateTime.isBefore, hzone, oldestMidnight_millis, decide_eq_true_eq] at hbefore
          refine hbefore.trans_le ?_
          unfold midnightOf dayAt maxLookBackDays millisPerDay
          dsimp only
          omega
      · exact .inr (.inl hcandidate)
    · exact .inr (.inr fun candidate hcandidate =>
        hlater candidate (List.mem_append_right _ hcandidate))

/-- What is on HDFS stays there when a file is added. -/
theorem Added.mem_entries {path other : HdfsDir} {entry found : Entry} {world' : World}
    (h : Added s path entry world world') (hother : other ≠ s.tempDir)
    (hfound : found ∈ world.entries other) : found ∈ world'.entries other := by
  by_cases hpath : other = path
  · rw [hpath] at hfound ⊢
    rw [h.entries_path]
    exact List.mem_append_left _ hfound
  · rw [h.entries_eq other hpath hother]
    exact hfound

/-- A file that need not be kept is not needed after something has been added on HDFS either. -/
theorem Setting.Done.added {path : HdfsDir} {entry : Entry} {world' : World}
    (h : s.Done world file) (hadded : Added s path entry world world') : s.Done world' file := by
  rcases h with ⟨directory, found, htemp, hfound, hholds⟩ | ⟨time, htime, hbefore⟩
  · exact .inl ⟨directory, found, htemp, hadded.mem_entries htemp hfound, hholds⟩
  · refine .inr ⟨time, htime, ?_⟩
    rw [hadded.clock_eq]
    exact hbefore

/-- Shipping stores the candidates. -/
theorem Safe.ship {base : DateTime} {candidates : List File} {last : File} {name : Text}
    {world' : World} (h : Safe s (.selected base candidates, world))
    (hlast : candidates.getLast? = some last)
    (hname : targetName s.jvm last.taistamp s.serviceInfo = .ok name)
    (hadded : Added s (s.hdfsDir base) ⟨name, false, .combined candidates⟩ world world') :
    Safe s (.shipped candidates, world') := by
  have hselects := h.covered
  have hlastMem := List.mem_of_getLast? hlast
  have hreceived := hadded.received_eq
  have hlocal : world'.localFiles s.serviceDir = world.localFiles s.serviceDir := by
    rw [World.localFiles, World.localFiles, hadded.localDirs_eq]
  have hstored : ∀ file ∈ candidates, s.Done world' file := by
    intro file hfile
    refine .inl ⟨s.hdfsDir base, ⟨name, false, .combined candidates⟩, s.hdfsDir_ne_tempDir base,
      ?_, rfl, candidates, rfl, hfile⟩
    rw [hadded.entries_path]
    exact List.mem_append_right _ (List.mem_singleton.2 rfl)
  -- The one new mark is read back from the name, which carries the label of the last candidate.
  have hmarks : ∀ info, s.Marks world' info →
      s.Marks world info ∨ info.taistamp = last.taistamp := by
    intro info h
    obtain ⟨path, entry, htemp, hentry, hfile, hplaced, hmatches⟩ := h
    by_cases hpath : path = s.hdfsDir base
    · rw [hpath, hadded.entries_path, List.mem_append, List.mem_singleton] at hentry
      rcases hentry with hold | rfl
      · exact .inl ⟨_, entry, s.hdfsDir_ne_tempDir base, hold, hfile, hplaced, hmatches⟩
      · have hread : getPlacedFileInfo ⟨[], name⟩ = .ok info :=
          Setting.getPlacedFileInfo_eq_ok_iff.2 hplaced
        exact .inr (taistamp_of_placedMatches hname hread hmatches)
    · rw [hadded.entries_eq path hpath htemp] at hentry
      exact .inl ⟨path, entry, htemp, hentry, hfile, hplaced, hmatches⟩
  refine ⟨⟨?_, ?_, ?_⟩, ?_, ?_, ?_, ?_, ?_, ?_⟩
  · rw [hreceived]
    exact h.arrived.svlogd
  · rw [hreceived]
    exact h.arrived.sorted
  · rw [hreceived, hlocal]
    exact h.arrived.sublist
  · rw [hreceived]
    exact h.dated
  · rw [hreceived]
    exact h.wellFormed
  · intro info hinfo
    rw [hreceived]
    rcases hmarks info hinfo with hold | hnew
    · exact h.marks info hold
    · exact ⟨last, hselects.sublist.subset hlastMem, hnew⟩
  · intro file hfile
    rw [hreceived] at hfile
    rw [hlocal]
    rcases h.kept file hfile with hkept | ⟨hpresent, hunmarked⟩
    · exact .inl (hkept.added hadded)
    · -- A file that was waiting is done, is shipped now, or is later than the new mark.
      rcases hselects.covers file hfile with hkept | hcandidate | hlater
      · exact .inl (hkept.added hadded)
      · exact .inl (hstored file hcandidate)
      · refine .inr ⟨hpresent, fun info hinfo => ?_⟩
        rcases hmarks info hinfo with hold | hnew
        · exact hunmarked info hold
        · rw [hnew]
          exact hlater last hlastMem
  · rw [hreceived]
    exact hselects.sublist
  · intro file hfile
    rw [hreceived] at hfile
    rcases hselects.covers file hfile with hkept | hcandidate | hlater
    · exact .inl (hkept.added hadded)
    · exact .inl (hstored file hcandidate)
    · exact .inr hlater

/-- Deleting a file dated before the limit loses nothing. -/
theorem Safe.delete {shipped : Bool} {limit time : DateTime} {files : List File}
    (h : Safe s (.cleaning shipped limit files, world)) (htime : fileTime s.jvm file = .ok time)
    (hbefore : time.isBefore limit = true) :
    Safe s (.cleaning shipped limit files, world.removeLocal file) where
  arrived := h.arrived.removeLocal
  dated := h.dated
  wellFormed := h.wellFormed
  marks := h.marks
  kept := by
    intro other hother
    rcases h.kept other hother with hdone | ⟨hlocal, hunmarked⟩
    · exact .inl hdone
    · by_cases heq : other = file
      · exact .inl (h.covered.covers other hother time (heq ▸ htime) hbefore)
      · exact .inr ⟨Setting.mem_removeLocal_iff.2 ⟨hlocal, fun _ => heq⟩, hunmarked⟩
  covered := ⟨h.covered.covers, h.covered.origin⟩

/-- Every step of a round keeps the invariant. -/
theorem RoundStep.safe (hzone : s.jvm.zone = .forOffsetMillis offset)
    {state state' : Phase × World} (hstep : RoundStep (s.orderTerms offset) state state')
    (h : Safe s state) : Safe s state' := by
  cases hstep with
  | internal hunobserved => exact h.calm hzone (.of_unobserved hunobserved)
  | @list world =>
      have hsorted : sortedFiles (world.localFiles (s.orderTerms offset).serviceDir) =
          world.localFiles s.serviceDir := h.arrived.sortedFiles_eq
      refine ⟨h.arrived, h.dated, h.wellFormed, h.marks, h.kept, ?_, fun file hfile => .inl ?_⟩
      · rw [hsorted]
        exact h.arrived.sublist
      · rw [hsorted]
        exact hfile
  | look hclock _ =>
      have hcalm := h.calm hzone (.clock hclock)
      exact ⟨hcalm.arrived, hcalm.dated, hcalm.wellFormed, hcalm.marks, hcalm.kept, hcalm.covered⟩
  | plan hclock =>
      have hcalm := h.calm hzone (.clock hclock)
      exact ⟨hcalm.arrived, hcalm.dated, hcalm.wellFormed, hcalm.marks, hcalm.kept, hcalm.covered,
        rfl⟩
  | select hclock _ hfound hcandidates _ =>
      have hselects := h.select hzone hclock (hfound trivial) hcandidates
      have hcalm := h.calm hzone (.clock hclock)
      exact ⟨hcalm.arrived, hcalm.dated, hcalm.wellFormed, hcalm.marks, hcalm.kept, hselects⟩
  | ship hlast hname hadded => exact h.ship hlast hname hadded
  | fail hclock =>
      have hcalm := h.calm hzone (.clock hclock)
      exact ⟨hcalm.arrived, hcalm.dated, hcalm.wellFormed, hcalm.marks, hcalm.kept, rfl, le_rfl⟩
  | @cleanShipped candidates last limit world hlast hlimit =>
      have hlastMem := List.mem_of_getLast? hlast
      have hreceived := h.covered.sublist.subset hlastMem
      refine ⟨h.arrived, h.dated, h.wellFormed, h.marks, h.kept, ?_, .inl ⟨last, hreceived, hlimit⟩⟩
      -- A file that was not shipped is later than the last one that was.
      intro file hfile time htime hbefore
      rcases h.covered.covers file hfile with hdone | hlater
      · exact hdone
      · rw [DateTime.isBefore, decide_eq_true_eq] at hbefore
        exact absurd (h.millis_le hreceived hfile (hlater last hlastMem).le hlimit htime)
          hbefore.not_ge
  | @cleanOld now world =>
      obtain ⟨hnow, hle⟩ := h.covered
      have hlimit : (now.minusDays (maxLookBackDays + 1)).millis ≤
          world.clock - maxLookBackDays * millisPerDay := by
        have hmillis := minusDays_millis hzone (maxLookBackDays + 1) now.millis
        rw [← hnow] at hmillis
        rw [hmillis]
        unfold maxLookBackDays millisPerDay
        dsimp only at hle
        omega
      refine ⟨h.arrived, h.dated, h.wellFormed, h.marks, h.kept, ?_, .inr hlimit⟩
      intro file _ time htime hbefore
      rw [DateTime.isBefore, decide_eq_true_eq] at hbefore
      exact .inr (aged_of_millis hzone htime (hbefore.trans_le hlimit))
  | delete _ htime hbefore => exact h.delete htime hbefore

end Steps

section Plans

variable {s : Setting} {offset : ℤ} {world world' : World}

/-- While a round plans, HDFS stays as it is. -/
theorem planning_entries_eq {t : Terms} {files files' : List File}
    {lookBack lookBack' base : DateTime}
    (h : ReflTransGen (RoundStep t) (.looking files lookBack, world)
      (.planning files' lookBack' base, world')) :
    ∀ path, path ≠ t.tempDir → world'.entries path = world.entries path := by
  have hall : ∀ state, ReflTransGen (RoundStep t) (.looking files lookBack, world) state →
      match state.1 with
      | .ready | .listed _ => False
      | .looking _ _ | .planning _ _ _ =>
          ∀ path, path ≠ t.tempDir → state.2.entries path = world.entries path
      | _ => True := by
    intro state hsteps
    induction hsteps with
    | refl => exact fun _ _ => rfl
    | @tail middle next _ hstep ih =>
        cases hstep with
        | @internal phase before after hunobserved =>
            cases phase with
            | looking _ _ =>
                exact fun path hpath => (hunobserved.entries_eq path hpath).trans (ih path hpath)
            | planning _ _ _ =>
                exact fun path hpath => (hunobserved.entries_eq path hpath).trans (ih path hpath)
            | ready => exact ih
            | listed _ => exact ih
            | _ => trivial
        | list => exact False.elim ih
        | look _ _ => exact False.elim ih
        | plan _ => exact ih
        | _ => trivial
  exact hall _ h

/-- The last taistamp of a plan is in a name on HDFS that reads back as one of the service. -/
theorem planNextShip_marks (hzone : s.jvm.zone = .forOffsetMillis offset)
    {totalReadySize maxReadySize : ℤ} {lookBack : DateTime} {plan : ShippingPlan}
    (hruns : Runs machine (planNextShip s.jvm s.serviceDir s.serviceInfo totalReadySize
      maxReadySize s.barnConf.hdfsLogDir s.barnConf.shipInterval lookBack)
      (s.beginRound world) (.ok plan) world') {taistamp : Text}
    (hlast : plan.lastTaistamp = some taistamp) :
    ∃ info, s.Marks world info ∧ info.taistamp = taistamp := by
  have hplan : Triple (roundContract (s.orderTerms offset))
      (InPhase (s.orderTerms offset) (.looking [] lookBack)) _ _ :=
    triple_planNextShip totalReadySize maxReadySize
  have hfollows := hplan (.looking [] lookBack) (s.beginRound world)
    ⟨rfl, (inPhase_beginRound world).2⟩
  obtain ⟨phase, hsteps, hpost⟩ := hfollows.runs (fun _ _ _ _ _ _ => trivial) hruns
  obtain ⟨⟨base, infos⟩, hplanned, ⟨⟨rfl, _⟩, hfound⟩⟩ := hpost plan rfl
  rw [hplanned.lastTaistamp] at hlast
  obtain ⟨⟨info, hinfo, heq⟩, _⟩ := getLastShippedTaistamp_spec hlast
  obtain ⟨count, _, ⟨hnil, _⟩ | ⟨path, hpath, htells⟩⟩ := hfound trivial
  · change infos = [] at hnil
    rw [hnil] at hinfo
    simp at hinfo
  · obtain ⟨hmatches, entry, hentry, hfile, hplaced⟩ := htells.sound info hinfo
    have htemp : path ≠ s.tempDir := by
      rw [targetDir_day hzone hplanned.zone hpath]
      exact s.dayDir_ne_tempDir _
    rw [planning_entries_eq hsteps path htemp] at hentry
    exact ⟨info, ⟨path, entry, htemp, hentry, hfile, hplaced, hmatches⟩, heq⟩

/-- So a file that is greater than everything that reads back is selectable. -/
theorem Setting.Unmarked.selectable (hzone : s.jvm.zone = .forOffsetMillis offset) {file : File}
    (h : s.Unmarked world file) : s.Selectable world file := by
  intro totalReadySize maxReadySize lookBack plan world' hruns taistamp hlast
  obtain ⟨info, hmarks, rfl⟩ := planNextShip_marks hzone hruns hlast
  exact h info hmarks

/-- The invariant holds at the beginning. -/
theorem Setting.Untouched.safe (h : s.Untouched world) : Safe s (.ready, world) := by
  refine ⟨h.arrived, by simp [h.received_eq], by simp [h.received_eq], ?_,
    by simp [h.received_eq], trivial⟩
  intro info h
  obtain ⟨path, entry, _, hentry, hfile, hplaced, hmatches⟩ := h
  exact absurd ⟨hfile, .inl ⟨info, hplaced, hmatches⟩⟩ (h.entries path entry hentry)

/-- In a run of arrivals in order, of rounds of which any step can fail, and of what happens
elsewhere, no file is lost. -/
theorem no_file_lost (hzone : s.jvm.zone = .forOffsetMillis offset) {start : World}
    (hstart : s.Untouched start) {labels : List (s.orderTerms offset).actRounds.Label}
    {result : Attempt Unit} {config : (s.orderTerms offset).actRounds.Config}
    (hadmits : (s.orderTerms offset).actRounds.Admits (s.orderTerms offset).Meets labels
      (.done result, start))
    (hrun : (s.orderTerms offset).actRounds.run labels (.done result, start) = some config) :
    ∀ file ∈ config.2.received, s.NotLost config.2 file := by
  obtain ⟨phase, hsteps⟩ := actRounds_follows hadmits hrun
  have hsafe : Safe s (phase, config.2) := by
    refine Rounds.SystemStep.invariant (motive := fun state => Safe s state) ?_ ?_ ?_ hsteps
      hstart.safe
    · intro phase world world' hhappens h
      cases hhappens.interference with
      | elsewhere helsewhere => exact h.calm hzone (.of_elsewhere helsewhere)
      | arrival harrives => exact h.receive hzone harrives
    · intro state state' hrestart h
      rw [hrestart]
      have hcalm := h.calm hzone (.beginRound state.2)
      exact ⟨hcalm.arrived, hcalm.dated, hcalm.wellFormed, hcalm.marks, hcalm.kept, trivial⟩
    · exact fun state state' hstep h => hstep.safe hzone h
  intro file hfile
  rcases hsafe.kept file hfile with (hstored | haged) | ⟨hlocal, hunmarked⟩
  · exact .inl hstored
  · exact .inr (.inr haged)
  · exact .inr (.inl ⟨hlocal, hunmarked.selectable hzone⟩)

end Plans

section Sample

/-- The stamps of the examples are late labels as svlogd writes them. -/
theorem stamped_sampleDates {file : File} {millis : ℤ} (h : (file, millis) ∈ sampleDates) :
    IsTai64n file.taistamp ∧ IsLate 0 file.taistamp := by
  have hall : ∀ dated ∈ sampleDates, dated.1.taistamp.length = 24 ∧
      (∀ unit ∈ dated.1.taistamp, 48 ≤ unit ∧ unit ≤ 57 ∨ 97 ≤ unit ∧ unit ≤ 102) ∧
      (∀ value, digitsValue asciiDigit 0 (dated.1.taistamp.drop 16) = some value →
        value < 10 ^ 9) ∧
      (∀ entry, conversionEntries.getLast? = some entry →
        midnightOf 0 entry.1.toDays + entry.2 * 1000 < labelMillis dated.1.taistamp) ∧
      -2 ^ 63 ≤ labelMillis dated.1.taistamp ∧ labelMillis dated.1.taistamp < 2 ^ 63 := by
    decide
  obtain ⟨hlength, hlower, hnanos, hafter, hlow, hhigh⟩ := hall _ h
  exact ⟨⟨hlength, hlower, hnanos⟩, hafter, hlow, hhigh⟩

/-- The files of the examples can arrive in order. -/
theorem arrivesInOrder_sampleDates {file : File} {millis : ℤ} (h : (file, millis) ∈ sampleDates)
    {world : World} (hgreater : ∀ other ∈ world.received, other.taistamp < file.taistamp) :
    Setting.sample.ArrivesInOrder 0 world file where
  svlogd := svlogd_sampleDates h
  wellFormed := (stamped_sampleDates h).1
  after_last := (stamped_sampleDates h).2.after_last
  greater := hgreater
  low := (stamped_sampleDates h).2.low
  high := (stamped_sampleDates h).2.high

/-- In the rounds of two days, of which the first one fails, no file is lost. -/
theorem no_file_lost_arrival : ∃ config,
    (Setting.sample.orderTerms 0).actRounds.run daysRun (.done (.ok ()), .initial 1400000000000) =
      some config ∧ shipsDaily config = true ∧
      ∀ file ∈ config.2.received, Setting.sample.NotLost config.2 file := by
  obtain ⟨config, hrun, hships⟩ := (Option.any_eq_true _ _).1 daysRun_ships
  refine ⟨config, hrun, hships, no_file_lost (show Setting.sample.jvm.zone = .forOffsetMillis 0
    from rfl) ⟨rfl, rfl, by simp [World.initial, World.entries]⟩ ?_ hrun⟩
  exact Terms.admits_orderly (t := Setting.sample.orderTerms 0)
    (fun _ _ h _ _ hgreater => arrivesInOrder_sampleDates h hgreater) (fun _ _ _ => trivial)
    daysRun_orderly

/-- A file that another service directory, of another service or host, has put on HDFS. -/
def Setting.PlacedElsewhere (s : Setting) (entry : Entry) : Prop :=
  ∃ dir info sources last, decodeServiceInfo dir = .ok info ∧ info ≠ s.serviceInfo ∧
    (∀ source ∈ sources, source.parent = dir) ∧ sources.getLast? = some last ∧
    targetName s.jvm last.taistamp info = .ok entry.getName ∧ entry.isDir = false ∧
    entry.content = .combined sources

/-- Files arrive in order, and other service directories ship theirs. -/
def Setting.Ordinary (s : Setting) (offset : ℤ) : s.actRounds.Label → s.actRounds.Config → Prop
  | .event (.arrive file), (_, world) => s.ArrivesLater offset world file
  | .event (.place _ entry), _ => s.PlacedElsewhere entry
  | _, _ => True

/-- The service `a,b` of the host `c`. -/
def Setting.commas : Setting where
  jvm := .utc
  barnConf := Setting.sample.barnConf
  serviceDir := text "/local/logs/a,b@main@c"
  serviceInfo := ⟨text "a,b", text "c"⟩
  decodes := by decide

/-- A file of that service. -/
def commasFile : File :=
  ⟨Setting.commas.serviceDir, text "@4000000053724e0000000000.s", false, 10⟩

/-- A later file of the service `a` of the host `b,c`, on HDFS. -/
def commasEntry : Entry :=
  ⟨text "2014,05,13,a,b,c,4000000053724e0100000000.seq", false,
    .combined [⟨text "/local/logs/a@main@b,c", text "@4000000053724e0100000000.s", false, 10⟩]⟩

/-- It is placed while the file waits. -/
def commasRun : List Setting.commas.actRounds.Label :=
  [.event (.arrive commasFile), .event (.place (text "/logs/2014/05-13") commasEntry)]

/-- The file can arrive. -/
theorem commas_arrives : Setting.commas.ArrivesLater 0 (.initial 1400000000000) commasFile where
  svlogd := ⟨rfl, rfl, text "4000000053724e0000000000", text ".s", by decide, by decide, by decide,
    by decide⟩
  wellFormed := ⟨by decide, by unfold IsLowerHex; decide, by decide⟩
  after_last := by unfold IsAfterLast; decide
  greater := by simp [World.initial]

/-- The later file is dated within the same day. -/
theorem convertTai64ToTime_commasEntry : convertTai64ToTime .utc (text "4000000053724e0100000000") =
    .ok ⟨1399999966000, .utc⟩ :=
  convertTai64ToTime_of_millis (show _ = some 1399999966000 by decide)

/-- It can be placed there. -/
theorem commasEntry_placedElsewhere : Setting.commas.PlacedElsewhere commasEntry := by
  refine ⟨text "/local/logs/a@main@b,c", ⟨text "a", text "b,c"⟩, _, _, by decide, by decide,
    fun source hsource => ?_, rfl, ?_, rfl, rfl⟩
  · rw [List.mem_singleton.1 hsource]
  · show targetName .utc (text "4000000053724e0100000000") _ = _
    rw [targetName, convertTai64ToTime_commasEntry]
    decide

/-- What was placed reads back as a file of the service `a,b` of the host `c`, so the file that
waits will not be selected. -/
theorem commas_lost : ∃ config,
    Setting.commas.actRounds.Admits (Setting.commas.Ordinary 0) commasRun
        (.done (.ok ()), .initial 1400000000000) ∧
      Setting.commas.actRounds.run commasRun (.done (.ok ()), .initial 1400000000000) =
        some config ∧ ∃ file ∈ config.2.received, ¬ Setting.commas.NotLost config.2 file := by
  refine ⟨(.done (.ok ()), ((World.initial 1400000000000).receive commasFile).setEntries
    (text "/logs/2014/05-13") [commasEntry]), ⟨commas_arrives, fun config hstep => ?_⟩, rfl,
    commasFile, by decide, ?_⟩
  · exact ⟨commasEntry_placedElsewhere, fun _ _ => trivial⟩
  · rintro (⟨path, entry, _, hentry, _, sources, hcontent, hmem⟩ | ⟨_, hselectable⟩ | haged)
    · rw [World.entries_setEntries] at hentry
      split at hentry
      · rw [List.mem_singleton.1 hentry] at hcontent
        rw [← Content.combined.inj hcontent] at hmem
        exact absurd hmem (by decide)
      · simp [World.receive, World.initial, World.entries] at hentry
    · have hplan : (execute machine
          [.reads 1400000000000, .ok, .ok, .ok, .ok, .reads 1400000000000]
          (planNextShip .utc Setting.commas.serviceDir Setting.commas.serviceInfo 0 0
            (text "/logs") 0 ⟨1400000000000, .utc⟩)
          (Setting.commas.beginRound (((World.initial 1400000000000).receive
            commasFile).setEntries (text "/logs/2014/05-13") [commasEntry]))).map
              (fun result => result.1.map ShippingPlan.lastTaistamp) =
          some (.ok (some (text "4000000053724e0100000000"))) := rfl
      obtain ⟨⟨result, world'⟩, hexecute, hlast⟩ := Option.map_eq_some_iff.1 hplan
      cases result with
      | error failure => simp [Except.map] at hlast
      | ok plan =>
          have hlt := hselectable 0 0 _ plan world' (runs_of_execute hexecute) _
            (Except.ok.inj hlast)
          exact absurd hlt (by decide)
    · obtain ⟨time, htime, hbefore⟩ := haged
      have hdate : fileTime Setting.commas.jvm commasFile = .ok ⟨1399999965000, .utc⟩ :=
        convertTai64ToTime_of_millis (show _ = some 1399999965000 by decide)
      rw [hdate, Except.ok.injEq] at htime
      rw [← htime] at hbefore
      exact absurd hbefore (by decide)

/-- A file of the service `web`, not so small. -/
def wideFile (name : Text) : File :=
  ⟨Setting.sample.serviceDir, name, false, 2000000⟩

/-- The round in which a file is shipped, up to the rename. -/
def overflowShip : List Setting.sample.actRounds.Label :=
  Setting.sample.answers
    (smoothOutcomes 1400000000000 1 (text "combined") (text "random")).dropLast

/-- Before the cleanup begins, two more files arrive; the milliseconds up to the times they denote
do not fit a `long`. -/
def overflowCleanup : List Setting.sample.actRounds.Label :=
  .event (.arrive (wideFile (text "@404189379f38e7e000000000.s"))) ::
    .event (.arrive (wideFile (text "@404189379f38e7e100000000.s"))) ::
    Setting.sample.answers [.ok, .ok]

/-- The whole run. -/
def overflowRun : List Setting.sample.actRounds.Label :=
  .event (.arrive (wideFile (text "@4000000053724e0000000000.s"))) :: .start ::
    (overflowShip ++ overflowCleanup)

/-- Answers are ordinary. -/
theorem Setting.ordinary_answers {s : Setting} {offset : ℤ} (outcomes : List Outcome)
    (config : s.actRounds.Config) :
    s.actRounds.Admits (s.Ordinary offset) (s.answers outcomes) config := by
  induction outcomes generalizing config with
  | nil => trivial
  | cons outcome outcomes ih => exact ⟨trivial, fun config' _ => ih config'⟩

/-- A round that has shipped has put nothing on HDFS but what was there locally. -/
theorem Setting.ShippedOnce.of_stored {s : Setting} {start world : World} {file : File}
    (h : s.ShippedOnce start world) (hstored : s.Stored world file) :
    s.Stored start file ∨ file ∈ start.localFiles s.serviceDir ∨ file ∈ world.received := by
  obtain ⟨candidates, last, name, base, ⟨listing, _, _, _, horigin, hcandidates⟩, _, _, _, _, _, _,
    _, hadded, hother⟩ := h
  obtain ⟨path, entry, htemp, hentry, hholds⟩ := hstored
  by_cases hpath : path = s.hdfsDir base
  · rw [hpath, hadded, List.mem_append, List.mem_singleton] at hentry
    rcases hentry with hold | rfl
    · exact .inl ⟨_, entry, s.hdfsDir_ne_tempDir base, hold, hholds⟩
    · obtain ⟨_, sources, hsources, hmem⟩ := hholds
      rw [← Content.combined.inj hsources] at hmem
      refine .inr (horigin file ?_)
      have hsorted := (dropWhileThrows_suffix hcandidates).subset hmem
      unfold sortedFiles at hsorted
      rw [List.mem_insertionSort] at hsorted
      exact List.mem_of_mem_filter (List.mem_of_mem_filter hsorted)
  · rw [hother path hpath htemp] at hentry
    exact .inl ⟨path, entry, htemp, hentry, hholds⟩

/-- A file arrives and a round begins. -/
theorem Setting.run_arrive_start {s : Setting} {file : File} (hparent : file.parent = s.serviceDir)
    (labels : List s.actRounds.Label) (result : Attempt Unit) (world : World) :
    s.actRounds.run (.event (.arrive file) :: .start :: labels) (.done result, world) =
      s.actRounds.run labels (s.actRounds.body, s.beginRound (world.receive file)) := by
  have harrive : s.actRounds.step (.event (.arrive file)) (.done result, world) =
      some (.done result, world.receive file) := by
    simp [Rounds.step, Setting.actRounds, Setting.occurs, hparent]
  rw [Rounds.run, harrive]
  rfl

/-- The world in which the round begins. -/
def overflowStart : World :=
  Setting.sample.beginRound ((World.initial 1400000000000).receive
    (wideFile (text "@4000000053724e0000000000.s")))

/-- After the rename only the first file has been received, and there is something in the directory
of the day. -/
theorem overflowShip_spec {config : Setting.sample.actRounds.Config}
    (hrun : Setting.sample.actRounds.run overflowShip (Setting.sample.actRounds.body,
      overflowStart) = some config) :
    config.2.received = [wideFile (text "@4000000053724e0000000000.s")] ∧
      config.2.entries (text "/logs/2014/05-13") ≠ [] := by
  have hall : (Setting.sample.actRounds.run overflowShip (Setting.sample.actRounds.body,
      overflowStart)).all (fun config =>
        config.2.received = [wideFile (text "@4000000053724e0000000000.s")] ∧
          config.2.entries (text "/logs/2014/05-13") ≠ []) = true := by decide
  rw [hrun, Option.all_some, decide_eq_true_eq] at hall
  exact hall

/-- The files can arrive in this order. -/
theorem overflow_admits : Setting.sample.actRounds.Admits (Setting.sample.Ordinary 0) overflowRun
    (.done (.ok ()), .initial 1400000000000) := by
  have hlater : ∀ (world : World) (label : Text), IsTai64n label → IsAfterLast 0 label →
      (∀ other ∈ world.received, other.taistamp < label) →
      Setting.sample.ArrivesLater 0 world (wideFile (64 :: (label ++ text ".s"))) := by
    intro world label hlabel hafter hgreater
    have htaistamp : (wideFile (64 :: (label ++ text ".s"))).taistamp = label :=
      taistamp_of_name rfl rfl
    refine ⟨⟨rfl, rfl, label, text ".s", rfl, hlabel.length_eq, hlabel.lower.isHex, rfl⟩, ?_, ?_,
      ?_⟩
    · rwa [htaistamp]
    · rwa [htaistamp]
    · rwa [htaistamp]
  have hfirst : IsTai64n (text "4000000053724e0000000000") :=
    ⟨by decide, by unfold IsLowerHex; decide, by decide⟩
  have hsecond : IsTai64n (text "404189379f38e7e000000000") :=
    ⟨by decide, by unfold IsLowerHex; decide, by decide⟩
  have hthird : IsTai64n (text "404189379f38e7e100000000") :=
    ⟨by decide, by unfold IsLowerHex; decide, by decide⟩
  refine ⟨hlater _ _ hfirst (by unfold IsAfterLast; decide) (by simp [World.initial]),
    fun _ hstep => ⟨trivial, fun _ hstep' => ?_⟩⟩
  rw [← Option.some.inj hstep] at hstep'
  rw [← Option.some.inj hstep']
  refine Rounds.admits_append (Setting.ordinary_answers _ _) fun config hrun => ?_
  have hreceived := (overflowShip_spec hrun).1
  obtain ⟨program, world⟩ := config
  refine ⟨hlater _ _ hsecond (by unfold IsAfterLast; decide) ?_,
    fun _ hstep => ⟨?_, fun _ _ => Setting.ordinary_answers _ _⟩⟩
  · intro other hother
    rw [hreceived, List.mem_singleton] at hother
    rw [hother]
    decide
  · rw [← Option.some.inj hstep]
    refine hlater _ _ hthird (by unfold IsAfterLast; decide) fun other hother => ?_
    rcases List.mem_append.1 hother with hold | hnew
    · rw [hreceived, List.mem_singleton] at hold
      rw [hold]
      decide
    · rw [List.mem_singleton.1 hnew]
      decide

/-- The first of the two is deleted without having been shipped. -/
theorem overflow_lost : ∃ config,
    Setting.sample.actRounds.run overflowRun (.done (.ok ()), .initial 1400000000000) =
      some config ∧ ∃ file ∈ config.2.received, ¬ Setting.sample.NotLost config.2 file := by
  have hall : (Setting.sample.actRounds.run (overflowShip ++ overflowCleanup)
      (Setting.sample.actRounds.body, overflowStart)).any (fun config =>
        wideFile (text "@404189379f38e7e000000000.s") ∈ config.2.received ∧
        wideFile (text "@404189379f38e7e000000000.s") ∉
          config.2.localFiles Setting.sample.serviceDir ∧
        config.2.clock = 1400000000000) = true := by decide +kernel
  obtain ⟨config, hrun, hconfig⟩ := (Option.any_eq_true _ _).1 hall
  obtain ⟨hreceived, hlocal, hclock⟩ := of_decide_eq_true hconfig
  refine ⟨config, ?_, _, hreceived, ?_⟩
  · rw [← hrun]
    exact Setting.run_arrive_start rfl _ _ _
  rintro (hstored | ⟨hpresent, _⟩ | ⟨time, htime, hbefore⟩)
  · rw [Rounds.run_append, Option.bind_eq_some_iff] at hrun
    obtain ⟨middle, hship, hcleanup⟩ := hrun
    have hfollows := actOnServiceDir_follows (t := Setting.sample.anyTerms)
      (show InPhase Setting.sample.anyTerms .ready .ready overflowStart from ⟨rfl, False.elim⟩)
    obtain ⟨phase, hsteps, hfollows⟩ := actOnServiceDir_roundRun
      (show ∀ label ∈ overflowShip, _ by decide) hfollows hship
    obtain ⟨phase', hsteps', _⟩ := actOnServiceDir_roundRun
      (show ∀ label ∈ overflowCleanup, _ by decide) hfollows hcleanup
    have hstart : Setting.sample.RoundEffect overflowStart [] (.ready, overflowStart) :=
      ⟨le_rfl, fun _ h => .inl h, ⟨fun _ _ => rfl, fun _ h => h, fun _ h => absurd h (by simp)⟩⟩
    have hmiddle := hsteps.roundEffect hstart
    obtain ⟨honly, hsome⟩ := overflowShip_spec hship
    rcases hmiddle.either with ⟨hsame, _⟩ | hshipped
    · rw [hsame _ (by decide)] at hsome
      exact hsome rfl
    · have hdirs := hsteps'.sameDirs (hmiddle.over hshipped)
      obtain ⟨path, entry, htemp, hentry, hholds⟩ := hstored
      rw [hdirs path htemp] at hentry
      rcases hshipped.of_stored ⟨path, entry, htemp, hentry, hholds⟩ with hold | hlocal | hreceived
      · obtain ⟨path, entry, _, hentry, _⟩ := hold
        simp [overflowStart, Setting.beginRound, World.receive, World.initial,
          World.entries] at hentry
      · exact absurd hlocal (by decide)
      · rw [honly] at hreceived
        exact absurd hreceived (by decide)
  · exact hlocal hpresent
  · have hdate : fileTime Setting.sample.jvm (wideFile (text "@404189379f38e7e000000000.s")) =
        .ok ⟨1399996365384, .utc⟩ :=
      convertTai64ToTime_of_millis (show _ = some 1399996365384 by decide)
    rw [hdate, Except.ok.injEq] at htime
    rw [← htime, hclock] at hbefore
    exact absurd hbefore (by decide)

/-- Files of a service can be lost when the names that another service of another host puts on HDFS
read back as its own, and when milliseconds do not fit a `long`. -/
theorem ordinary_run_loses :
    (∃ config, Setting.commas.Untouched (.initial 1400000000000) ∧
      Setting.commas.actRounds.Admits (Setting.commas.Ordinary 0) commasRun
        (.done (.ok ()), .initial 1400000000000) ∧
      Setting.commas.actRounds.run commasRun (.done (.ok ()), .initial 1400000000000) =
        some config ∧ ∃ file ∈ config.2.received, ¬ Setting.commas.NotLost config.2 file) ∧
    ∃ config, Setting.sample.Untouched (.initial 1400000000000) ∧
      Setting.sample.actRounds.Admits (Setting.sample.Ordinary 0) overflowRun
        (.done (.ok ()), .initial 1400000000000) ∧
      Setting.sample.actRounds.run overflowRun (.done (.ok ()), .initial 1400000000000) =
        some config ∧ ∃ file ∈ config.2.received, ¬ Setting.sample.NotLost config.2 file := by
  obtain ⟨config, hadmits, hrun, hlost⟩ := commas_lost
  obtain ⟨config', hrun', hlost'⟩ := overflow_lost
  exact ⟨⟨config, ⟨rfl, rfl, by simp [World.initial, World.entries]⟩, hadmits, hrun, hlost⟩,
    config', ⟨rfl, rfl, by simp [World.initial, World.entries]⟩, overflow_admits, hrun', hlost'⟩

end Sample

end Barn.Hdfs
