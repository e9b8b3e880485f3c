import Barn.Hdfs.Rounds

/-!
# Files that arrive in order

Svlogd files whose taistamps grow: their listing is sorted as they arrived. `Arrived` is what holds
of the local directory in every run amid such arrivals, `Calm` a change that neither adds nor
removes anything the rounds of the service look at.
-/

namespace Barn.Hdfs

section Order

variable {files : List File}

/-- In a list in order the first one is the least. -/
theorem head_taistamp_le {first : File}
    (hsorted : files.Pairwise fun first second => first.taistamp < second.taistamp)
    (hfirst : files.head? = some first) : ∀ file ∈ files, first.taistamp ≤ file.taistamp := by
  cases files with
  | nil => simp at hfirst
  | cons head tail =>
      rw [List.head?_cons, Option.some.injEq] at hfirst
      subst hfirst
      intro file hfile
      rcases List.mem_cons.1 hfile with rfl | htail
      · exact le_rfl
      · exact (List.rel_of_pairwise_cons hsorted htail).le

/-- In a list in order the last one is the greatest. -/
theorem taistamp_le_getLast {last : File}
    (hsorted : files.Pairwise fun first second => first.taistamp < second.taistamp)
    (hlast : files.getLast? = some last) : ∀ file ∈ files, file.taistamp ≤ last.taistamp := by
  obtain ⟨before, rfl⟩ := List.getLast?_eq_some_iff.1 hlast
  intro file hfile
  rcases List.mem_append.1 hfile with hbefore | hsingle
  · exact ((List.pairwise_append.1 hsorted).2.2 file hbefore last (by simp)).le
  · exact (List.mem_singleton.1 hsingle ▸ le_rfl)

end Order

namespace Setting

variable (s : Setting)

/-- A file of svlogd in the service directory. -/
structure IsSvlogdFile (file : File) : Prop where
  parent_eq : file.parent = s.serviceDir
  isDirectory_eq : file.isDirectory = false
  name : IsSvlogdName file.getName

/-- The files of the service directory arrived in the order of their taistamps, and those that are
still there are in that order. -/
structure Arrived (world : World) : Prop where
  svlogd : ∀ file ∈ world.received, s.IsSvlogdFile file
  sorted : world.received.Pairwise fun first second => first.taistamp < second.taistamp
  sublist : (world.localFiles s.serviceDir).Sublist world.received

/-- The world has changed at most in what the rounds of the service do not look at, and in the
clock. -/
structure Calm (world world' : World) : Prop where
  clock_le : world.clock ≤ world'.clock
  localFiles_eq : world'.localFiles s.serviceDir = world.localFiles s.serviceDir
  received_eq : world'.received = world.received
  sameConcerns : ∀ path, path ≠ s.tempDir → ∀ entry, s.Concerns entry →
    (entry ∈ world'.entries path ↔ entry ∈ world.entries path)

end Setting

namespace Setting

variable {s : Setting} {world world' : World} {file other : File} {files : List File}

/-- A file of svlogd is not excluded. -/
theorem IsSvlogdFile.excluded (h : s.IsSvlogdFile file) : excluded file.getName = false := by
  obtain ⟨label, suffix, hname, _⟩ := h.name
  simp [Hdfs.excluded, hname]

/-- Files of svlogd are ordered by path as by taistamp. -/
theorem IsSvlogdFile.path_lt (hfile : s.IsSvlogdFile file) (hother : s.IsSvlogdFile other)
    (h : file.taistamp < other.taistamp) : file.path < other.path := by
  obtain ⟨label, suffix, hname, hlength, _, hsuffix⟩ := hfile.name
  obtain ⟨label', suffix', hname', hlength', _, hsuffix'⟩ := hother.name
  rw [taistamp_of_name hname hsuffix, taistamp_of_name hname' hsuffix'] at h
  rw [File.path, File.path, childPath, childPath, hfile.parent_eq, hother.parent_eq, hname, hname']
  refine List.append_left_lt (List.cons_lt_cons_iff.2 (.inr ⟨rfl, ?_⟩))
  exact append_lt_append h (hlength.trans hlength'.symm) suffix suffix'

/-- A listing in the order of the taistamps is already as a round sorts it. -/
theorem sortedFiles_of_sorted (hsvlogd : ∀ file ∈ files, s.IsSvlogdFile file)
    (hsorted : files.Pairwise fun first second => first.taistamp < second.taistamp) :
    sortedFiles files = files := by
  have hfiles : (files.filter fun file => !file.isDirectory) = files :=
    List.filter_eq_self.2 fun file hfile => by simp [(hsvlogd file hfile).isDirectory_eq]
  have hincluded : (files.filter fun file => !Hdfs.excluded file.getName) = files :=
    List.filter_eq_self.2 fun file hfile => by simp [(hsvlogd file hfile).excluded]
  rw [sortedFiles, hfiles, hincluded]
  refine List.Pairwise.insertionSort_eq (hsorted.imp_of_mem fun hfirst hsecond hlt => ?_)
  exact le_of_lt ((hsvlogd _ hfirst).path_lt (hsvlogd _ hsecond) hlt)

/-- The files that are there are files of svlogd. -/
theorem Arrived.svlogd_local (h : s.Arrived world) :
    ∀ file ∈ world.localFiles s.serviceDir, s.IsSvlogdFile file :=
  fun file hfile => h.svlogd file (h.sublist.subset hfile)

/-- A listing of the local directory is as the files arrived. -/
theorem Arrived.sortedFiles_eq (h : s.Arrived world) :
    sortedFiles (world.localFiles s.serviceDir) = world.localFiles s.serviceDir :=
  sortedFiles_of_sorted h.svlogd_local (h.sorted.sublist h.sublist)

/-- Calm changes do not matter for what arrived. -/
theorem Arrived.calm (h : s.Arrived world) (hcalm : s.Calm world world') : s.Arrived world' where
  svlogd := by
    rw [hcalm.received_eq]
    exact h.svlogd
  sorted := by
    rw [hcalm.received_eq]
    exact h.sorted
  sublist := by
    rw [hcalm.received_eq, hcalm.localFiles_eq]
    exact h.sublist

/-- A file that arrives is listed last. -/
theorem localFiles_receive (h : file.parent = s.serviceDir) :
    (world.receive file).localFiles s.serviceDir = world.localFiles s.serviceDir ++ [file] := by
  simp [World.localFiles, World.receive, h]

/-- A greater file arrives. -/
theorem Arrived.receive (h : s.Arrived world) (hfile : s.IsSvlogdFile file)
    (hgreater : ∀ other ∈ world.received, other.taistamp < file.taistamp) :
    s.Arrived (world.receive file) where
  svlogd := by
    intro other hother
    rcases List.mem_append.1 hother with hold | hnew
    · exact h.svlogd other hold
    · rw [List.mem_singleton.1 hnew]
      exact hfile
  sorted := by
    refine List.pairwise_append.2 ⟨h.sorted, List.pairwise_singleton _ _, ?_⟩
    intro other hother last hlast
    rw [List.mem_singleton.1 hlast]
    exact hgreater other hother
  sublist := by
    rw [localFiles_receive hfile.parent_eq]
    exact h.sublist.append_right [file]

/-- Deleting a file takes it out of the listing. -/
theorem localFiles_removeLocal_sublist :
    ((world.removeLocal file).localFiles s.serviceDir).Sublist (world.localFiles s.serviceDir) := by
  simp only [World.localFiles, World.removeLocal, Function.update_apply]
  split
  · next heq =>
      rw [heq]
      cases world.localDirs file.parent with
      | none => simp
      | some listing => exact List.filter_sublist
  · exact List.Sublist.refl _

/-- A deleted file is gone, every other file stays. -/
theorem mem_removeLocal_iff :
    other ∈ (world.removeLocal file).localFiles s.serviceDir ↔
      other ∈ world.localFiles s.serviceDir ∧ (s.serviceDir = file.parent → other ≠ file) := by
  simp only [World.localFiles, World.removeLocal, Function.update_apply]
  split
  · next heq =>
      rw [heq]
      cases world.localDirs file.parent <;> simp
  · next hne => simp [hne]

/-- A file is deleted. -/
theorem Arrived.removeLocal (h : s.Arrived world) : s.Arrived (world.removeLocal file) where
  svlogd := h.svlogd
  sorted := h.sorted
  sublist := localFiles_removeLocal_sublist.trans h.sublist

/-- What is unobserved is calm. -/
theorem Calm.of_unobserved (h : Unobserved s world world') : s.Calm world world' where
  clock_le := h.clock_le
  localFiles_eq := by rw [World.localFiles, World.localFiles, h.localDirs_eq]
  received_eq := h.received_eq
  sameConcerns := by
    intro path hpath entry _
    rw [h.entries_eq path hpath]

/-- So is what happens elsewhere. -/
theorem Calm.of_elsewhere (h : Elsewhere s world world') : s.Calm world world' :=
  ⟨h.clock_le, h.localFiles_eq, h.received_eq, fun path _ entry => h.sameConcerns path entry⟩

/-- Reading the clock is calm. -/
theorem Calm.clock {millis : ℤ} (h : world.clock ≤ millis) :
    s.Calm world { world with clock := millis } :=
  ⟨h, rfl, rfl, fun _ _ _ _ => Iff.rfl⟩

/-- So is the beginning of a round. -/
theorem Calm.beginRound (world : World) : s.Calm world (s.beginRound world) :=
  ⟨le_rfl, rfl, rfl, fun _ _ _ _ => Iff.rfl⟩

end Setting

section Sample

/-- The files of the examples and when they are dated: two of a day and one of the next. -/
def sampleDates : List (File × ℤ) :=
  [(sampleFile (text "@4000000053724e0000000000.s"), 1399999965000),
    (sampleFile (text "@4000000053724e0100000000.s"), 1399999966000),
    (sampleFile (text "@4000000053739f8000000000.s"), 1400086365000)]

/-- They are files of svlogd. -/
theorem svlogd_sampleDates {file : File} {millis : ℤ} (h : (file, millis) ∈ sampleDates) :
    Setting.sample.IsSvlogdFile file := by
  have hall : ∀ dated ∈ sampleDates, dated.1.parent = Setting.sample.serviceDir ∧
      dated.1.isDirectory = false ∧ dated.1.getName = 64 :: (dated.1.taistamp ++ text ".s") ∧
      dated.1.taistamp.length = 24 ∧ IsHex dated.1.taistamp := by decide
  obtain ⟨hparent, hdirectory, hname, hlength, hhex⟩ := hall _ h
  exact ⟨hparent, hdirectory, _, _, hname, hlength, hhex, rfl⟩

/-- They are dated like this. -/
theorem fileTime_sampleDates {file : File} {millis : ℤ} (h : (file, millis) ∈ sampleDates) :
    fileTime .utc file = .ok ⟨millis, .utc⟩ := by
  have hall : ∀ dated ∈ sampleDates, (convertTai64ToTime .utc dated.1.taistamp).toOption.map
      DateTime.millis = some dated.2 := by decide
  exact convertTai64ToTime_of_millis (hall _ h)

/-- A file arrives, and a round starts and makes its plan. -/
def firstPlan : List Setting.sample.actRounds.Label :=
  [.event (.arrive (sampleFile (text "@4000000053724e0000000000.s"))), .start] ++
  Setting.sample.answers ([.ok, .reads 1400000000000, .reads 1400000000000] ++ lookupOutcomes)

/-- The file is shipped; a second one arrives, and the next round makes its plan. -/
def firstShip : List Setting.sample.actRounds.Label :=
  Setting.sample.answers (shipOutcomes 1400000000000 (text "combined") (text "random")) ++
  [.event (.arrive (sampleFile (text "@4000000053724e0100000000.s"))), .start] ++
  Setting.sample.answers ([.ok, .reads 1400000060000, .reads 1400000060000] ++ lookupOutcomes ++
    [.reads 1400000060000])

/-- Combining the file fails; on the next day a third one arrives. -/
def failedShip : List Setting.sample.actRounds.Label :=
  Setting.sample.answers [.reads 1400000060000, .fails (.io (text "disk full")),
    .reads 1400000060000, .ok] ++
  [.event (.advance 1400086400000),
    .event (.arrive (sampleFile (text "@4000000053739f8000000000.s")))]

/-- A round makes its plan. -/
def secondPlan : List Setting.sample.actRounds.Label :=
  .start :: Setting.sample.answers ([.ok, .reads 1400086400000, .reads 1400086400000] ++
    lookupOutcomes ++ lookupOutcomes ++ [.reads 1400086400000])

/-- Both files are shipped. -/
def secondShip : List Setting.sample.actRounds.Label :=
  Setting.sample.answers (shipOutcomes 1400086400000 (text "combined2") (text "random2"))

/-- The rounds of two days, of which the second one fails. -/
def daysRun : List Setting.sample.actRounds.Label :=
  firstPlan ++ firstShip ++ (failedShip ++ secondPlan) ++ secondShip

/-- On each of the days a file is put on HDFS, and the local ones are kept. -/
def shipsDaily (config : Setting.sample.actRounds.Config) : Bool :=
  succeeds config.1 && config.2.received = sampleDates.map Prod.fst &&
    config.2.entries (text "/logs/2014/05-13") =
      [⟨text "2014,05,13,web,node1,4000000053724e0000000000.seq", false,
        .combined [sampleFile (text "@4000000053724e0000000000.s")]⟩] &&
    config.2.entries (text "/logs/2014/05-14") =
      [⟨text "2014,05,14,web,node1,4000000053739f8000000000.seq", false,
        .combined [sampleFile (text "@4000000053724e0100000000.s"),
          sampleFile (text "@4000000053739f8000000000.s")]⟩]

/-- So the run goes. -/
theorem daysRun_ships : (Setting.sample.actRounds.run daysRun
    (.done (.ok ()), .initial 1400000000000)).any shipsDaily = true := by decide +kernel

/-- The files arrive in order. -/
theorem daysRun_orderly : Setting.sample.actRounds.passes (Setting.sample.orderly sampleDates true)
    daysRun (.done (.ok ()), .initial 1400000000000) = true := by decide +kernel

end Sample

end Barn.Hdfs
