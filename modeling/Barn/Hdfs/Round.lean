import Barn.Hdfs.Search
import Barn.Interaction.Refinement

/-!
# What a round does

The rounds of one service directory as a protocol: a `Phase` says how far a round has come and
`RoundStep` what can happen next and what it changes. `Interference` is what everybody else may do
meanwhile. `SearchFound` says what the search on HDFS has found out about the service's files.
The rounds of `main.scala` follow this protocol (`Barn.Hdfs.RoundRefinement`).
-/

namespace Barn.Hdfs

open Interaction

/-- How far a round has come. -/
inductive Phase where
  | ready
  | listed (files : List File)
  | looking (files : List File) (lookBack : DateTime)
  | planning (files : List File) (lookBack base : DateTime)
  | selected (base : DateTime) (candidates : List File)
  | shipped (candidates : List File)
  | failed (now : DateTime)
  | cleaning (shipped : Bool) (limit : DateTime) (files : List File)

/-- The world has changed at most where the rounds leave no trace. -/
structure Unobserved (s : Setting) (world world' : World) : Prop where
  clock_le : world.clock ≤ world'.clock
  localDirs_eq : world'.localDirs = world.localDirs
  received_eq : world'.received = world.received
  entries_eq : ∀ path, path ≠ s.tempDir → world'.entries path = world.entries path

/-- A file has been added to a directory on HDFS and nothing else has changed. -/
structure Added (s : Setting) (path : HdfsDir) (entry : Entry) (world world' : World) : Prop where
  fresh : ∀ other ∈ world.entries path, other.getName ≠ entry.getName
  clock_eq : world'.clock = world.clock
  localDirs_eq : world'.localDirs = world.localDirs
  received_eq : world'.received = world.received
  entries_path : world'.entries path = world.entries path ++ [entry]
  entries_eq : ∀ other, other ≠ path → other ≠ s.tempDir →
    world'.entries other = world.entries other

/-- The terms under which the rounds of a service directory are looked at: whether the cache is
`trusted` to be coherent, when the clock may be read to select the candidates, and which files may
arrive. -/
structure Terms extends Setting where
  trusted : Prop
  mayRead : World → ℤ → Prop
  mayArrive : World → File → Prop

/-- What a round can do next. -/
inductive RoundStep (t : Terms) : Phase × World → Phase × World → Prop where
  | internal {phase world world'} :
      Unobserved t.toSetting world world' → RoundStep t (phase, world) (phase, world')
  | list {world} :
      RoundStep t (.ready, world)
        (.listed (sortedFiles (world.localFiles t.serviceDir)), world)
  | look {files minFileDate world millis} :
      world.clock ≤ millis →
      earliestFileDate t.jvm files = .ok minFileDate →
      RoundStep t (.listed files, world)
        (.looking files (lookBackDate minFileDate
          (DateTime.minusDays maxLookBackDays ⟨millis, t.jvm.zone⟩)),
          { world with clock := millis })
  | plan {files lookBack world millis} :
      world.clock ≤ millis →
      RoundStep t (.looking files lookBack, world)
        (.planning files lookBack ⟨millis, t.jvm.zone⟩, { world with clock := millis })
  | select {files lookBack base world millis infos candidates} :
      world.clock ≤ millis →
      t.mayRead world millis →
      (t.trusted → t.SearchFound world base lookBack infos) →
      dropWhileThrows (isSettled t.jvm (getLastShippedTaistamp infos)
        (oldestMidnight ⟨millis, t.jvm.zone⟩)) files = .ok candidates →
      candidates ≠ [] →
      RoundStep t (.planning files lookBack base, world)
        (.selected base candidates, { world with clock := millis })
  | ship {base candidates last name world world'} :
      candidates.getLast? = some last →
      targetName t.jvm (svlogdFileNameToTaiString last.getName) t.serviceInfo = .ok name →
      Added t.toSetting (t.hdfsDir base) ⟨name, false, .combined candidates⟩ world world' →
      RoundStep t (.selected base candidates, world) (.shipped candidates, world')
  | fail {phase world millis} :
      world.clock ≤ millis →
      RoundStep t (phase, world)
        (.failed ⟨millis, t.jvm.zone⟩, { world with clock := millis })
  | cleanShipped {candidates last limit world} :
      candidates.getLast? = some last →
      fileTime t.jvm last = .ok limit →
      RoundStep t (.shipped candidates, world)
        (.cleaning true limit (sortedFiles (world.localFiles t.serviceDir)), world)
  | cleanOld {now world} :
      RoundStep t (.failed now, world)
        (.cleaning false (now.minusDays (maxLookBackDays + 1))
          (sortedFiles (world.localFiles t.serviceDir)), world)
  | delete {shipped limit files file time world} :
      file ∈ files.rdrop 1 →
      fileTime t.jvm file = .ok time →
      time.isBefore limit = true →
      RoundStep t (.cleaning shipped limit files, world)
        (.cleaning shipped limit files, world.removeLocal file)

/-- What happens elsewhere: nothing that concerns the service or its files changes, and what others
cache is true. -/
structure Elsewhere (s : Setting) (world world' : World) : Prop where
  clock_le : world.clock ≤ world'.clock
  localFiles_eq : world'.localFiles s.serviceDir = world.localFiles s.serviceDir
  received_eq : world'.received = world.received
  localTemp_eq : world'.localTemp = world.localTemp
  tempEntries_eq : world'.entries s.tempDir = world.entries s.tempDir
  sameConcerns : s.SameConcerns world world'
  cache_coherent : ∀ path listing, world'.hdfsListCache path = some listing →
    world.hdfsListCache path = some listing ∨ s.CoherentListing world' path listing

/-- What everybody else may do between two steps of a round: act elsewhere, or deliver a file. -/
inductive Interference (t : Terms) : World → World → Prop where
  | elsewhere {world world'} : Elsewhere t.toSetting world world' → Interference t world world'
  | arrival {world file} : t.mayArrive world file → Interference t world (world.receive file)

/-- The protocol of the rounds of one service directory. -/
def roundContract (t : Terms) : Contract machine Phase where
  rely := Interference t
  allowed := fun command outcome world =>
    ∀ millis, command = .now .outstandingFiles → outcome = .reads millis → t.mayRead world millis
  step := RoundStep t

end Barn.Hdfs
