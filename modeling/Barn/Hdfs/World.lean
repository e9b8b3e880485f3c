import Barn.Hdfs.Package
import Barn.Interaction.Program
import Mathlib.Logic.Function.Basic

/-!
# What a sync round asks of its surroundings

The clock, the local disk, HDFS and the listing cache of a round, as the answers to the requests a
round makes. Every request of Hadoop and of the local disk can fail: its `Outcome` says how.
A `World` also remembers which files were ever received and which temporary names were drawn.
-/

namespace Barn.Hdfs

open Interaction

/-- What a file on HDFS holds: a complete combination of local files, or what a failed copy left. -/
inductive Content where
  | combined (sources : List File)
  | fragment
  deriving DecidableEq

/-- An entry of an HDFS directory. -/
structure Entry where
  getName : Text
  isDir : Bool
  content : Content
  deriving DecidableEq

/-- The state around the rounds. A directory that does not exist has no list of entries; one with
a fault cannot be listed. -/
structure World where
  clock : ℤ
  localDirs : Dir → Option (List File)
  localTemp : Text → Option Content
  hdfs : HdfsDir → Option (List Entry)
  listingFault : HdfsDir → Option Text
  fileSystems : Dir → Bool
  hdfsListCache : HdfsDir → Option CachedListing
  received : List File
  drawnNames : List Text

/-- The places of a round at which the clock is read. -/
inductive ClockUse where
  | earliestLookbackDate
  | planNextShip
  | enoughTimePast
  | outstandingFiles
  | actOnServiceDir
  deriving DecidableEq

/-- The requests of a round. -/
inductive Command where
  | now (use : ClockUse)
  | listFiles (dir : Dir)
  | delete (file : File)
  | unboxLazy (serviceDir : Dir)
  | cacheGet (path : HdfsDir)
  | cachePut (path : HdfsDir) (listing : CachedListing)
  | listStatus (path : HdfsDir)
  | mkdirs (path : HdfsDir)
  | combineIntoSeqFile (candidates : List File) (targetDir : Dir)
  | randomName
  | copyFromLocalFile (source : Text) (target : HdfsFile)
  | rename (source target : HdfsFile)
  deriving DecidableEq

/-- The type of the reply to a request. -/
def Command.Reply : Command → Type
  | .now _ => ℤ
  | .listFiles _ => Throws (Option (List File))
  | .delete _ => Throws Unit
  | .unboxLazy _ => Throws Unit
  | .cacheGet _ => Option CachedListing
  | .cachePut _ _ => Unit
  | .listStatus _ => Throws (Option (List Entry))
  | .mkdirs _ => Throws Unit
  | .combineIntoSeqFile _ _ => Throws Text
  | .randomName => Text
  | .copyFromLocalFile _ _ => Throws Unit
  | .rename _ _ => Throws Bool

/-- The requests of a round and their replies. -/
abbrev signature : Signature where
  Request := Command
  Reply := Command.Reply

/-- How a request goes: it succeeds, is refused without an exception, fails, fails after having
taken effect, draws a name, or reads the clock at some time. -/
inductive Outcome where
  | ok
  | refused
  | fails (throwable : Throwable)
  | failsLate (throwable : Throwable)
  | named (name : Text)
  | reads (millis : ℤ)
  deriving DecidableEq

namespace World

/-- The entries of a directory, none if it does not exist. -/
def entries (world : World) (path : HdfsDir) : List Entry :=
  (world.hdfs path).getD []

/-- The files of a local directory, none if it does not exist. -/
def localFiles (world : World) (dir : Dir) : List File :=
  (world.localDirs dir).getD []

/-- Replace the entries of a directory. -/
def setEntries (path : HdfsDir) (entries : List Entry) (world : World) : World :=
  { world with hdfs := Function.update world.hdfs path (some entries) }

/-- Create a directory unless it exists. -/
def makeDirectory (path : HdfsDir) (world : World) : World :=
  world.setEntries path (world.entries path)

/-- Write a file, over one of the same name. -/
def writeFile (target : HdfsFile) (content : Content) (world : World) : World :=
  world.setEntries target.parent
    ((world.entries target.parent).filter (fun entry => entry.getName ≠ target.getName) ++
      [⟨target.getName, false, content⟩])

/-- Move a file to an existing directory that has no entry of the new name. -/
def moveFile (source target : HdfsFile) (world : World) : Option World :=
  match (world.entries source.parent).find? fun entry => entry.getName = source.getName,
      world.hdfs target.parent with
  | some entry, some existing =>
      if existing.any fun other => other.getName = target.getName then none
      else
        let removed := world.setEntries source.parent
          ((world.entries source.parent).filter fun other => other.getName ≠ source.getName)
        some (removed.setEntries target.parent
          (removed.entries target.parent ++ [{ entry with getName := target.getName }]))
  | _, _ => none

/-- A file arrives in its local directory. -/
def receive (file : File) (world : World) : World :=
  { world with
    localDirs := Function.update world.localDirs file.parent
      (some (world.localFiles file.parent ++ [file]))
    received := world.received ++ [file] }

/-- Remove a file from its local directory. -/
def removeLocal (file : File) (world : World) : World :=
  { world with
    localDirs := Function.update world.localDirs file.parent
      ((world.localDirs file.parent).map fun files => files.filter (· ≠ file)) }

/-- A world in which nothing has happened yet. -/
def initial (clock : ℤ) : World where
  clock := clock
  localDirs := fun _ => some []
  localTemp := fun _ => none
  hdfs := fun _ => none
  listingFault := fun _ => none
  fileSystems := fun _ => false
  hdfsListCache := fun _ => none
  received := []
  drawnNames := []

end World

namespace World

variable {world moved : World} {path : HdfsDir}

@[simp] theorem entries_setEntries (entries : List Entry) (other : HdfsDir) :
    (world.setEntries path entries).entries other =
      if other = path then entries else world.entries other := by
  unfold World.entries setEntries
  by_cases h : other = path <;> simp [h]

/-- Creating a directory changes no entries. -/
@[simp] theorem entries_makeDirectory (other : HdfsDir) :
    (world.makeDirectory path).entries other = world.entries other := by
  rw [makeDirectory, entries_setEntries]
  split
  · next h => rw [h]
  · rfl

/-- Writing a file changes its directory only. -/
theorem entries_writeFile {target : HdfsFile} {content : Content} {other : HdfsDir}
    (h : other ≠ target.parent) :
    (world.writeFile target content).entries other = world.entries other := by
  rw [writeFile, entries_setEntries, if_neg h]

/-- A file that was written is found under its name. -/
theorem find?_writeFile (target : HdfsFile) (content : Content) :
    ((world.writeFile target content).entries target.parent).find?
      (fun entry => entry.getName = target.getName) = some ⟨target.getName, false, content⟩ := by
  rw [writeFile, entries_setEntries, if_pos rfl, List.find?_append, List.find?_eq_none.2]
  · simp
  · intro entry hentry
    simpa using (List.mem_filter.1 hentry).2

/-- A file that is moved appears under its new name, where no entry had that name, and disappears
from its old directory; nothing else changes. -/
theorem moveFile_spec {source target : HdfsFile} {entry : Entry}
    (h : world.moveFile source target = some moved) (hparent : source.parent ≠ target.parent)
    (hentry : (world.entries source.parent).find?
      (fun entry => entry.getName = source.getName) = some entry) :
    (∀ other ∈ world.entries target.parent, other.getName ≠ target.getName) ∧
      moved.entries target.parent =
        world.entries target.parent ++ [{ entry with getName := target.getName }] ∧
      (∀ other, other ≠ target.parent → other ≠ source.parent →
        moved.entries other = world.entries other) ∧
      moved.clock = world.clock ∧ moved.localDirs = world.localDirs ∧
      moved.received = world.received := by
  rw [moveFile, hentry] at h
  cases hexisting : world.hdfs target.parent with
  | none => simp [hexisting] at h
  | some existing =>
      have hentries : world.entries target.parent = existing := by
        rw [World.entries, hexisting, Option.getD_some]
      simp only [hexisting] at h
      split at h
      · simp at h
      · next hfresh =>
          rw [Option.some.injEq] at h
          subst h
          refine ⟨?_, ?_, ?_, rfl, rfl, rfl⟩
          · intro other hother heq
            rw [hentries] at hother
            exact hfresh (List.any_eq_true.2 ⟨other, hother, by simpa using heq⟩)
          · rw [entries_setEntries, if_pos rfl, entries_setEntries, if_neg hparent.symm]
          · intro other htarget hsource
            rw [entries_setEntries, if_neg htarget, entries_setEntries, if_neg hsource]

/-- Moving a file changes nothing else than the entries of directories. -/
theorem fileSystems_moveFile {source target : HdfsFile}
    (h : world.moveFile source target = some moved) : moved.fileSystems = world.fileSystems := by
  unfold moveFile at h
  split at h
  · split at h
    · simp at h
    · rw [← Option.some.inj h]
      rfl
  · simp at h

end World

/-- The reply of a request and the world after it, if the outcome is possible. -/
def answer : (command : Command) → Outcome → World → Option (command.Reply × World)
  | .now _, .reads millis, world =>
      if world.clock ≤ millis then some (millis, { world with clock := millis }) else none
  | .listFiles dir, .ok, world => some (.ok (world.localDirs dir), world)
  | .listFiles _, .fails throwable, world => some (.error throwable, world)
  | .delete file, .ok, world => some (.ok (), world.removeLocal file)
  | .delete _, .refused, world => some (.ok (), world)
  | .delete _, .fails throwable, world => some (.error throwable, world)
  | .unboxLazy dir, .ok, world =>
      some (.ok (), { world with fileSystems := Function.update world.fileSystems dir true })
  | .unboxLazy dir, .fails throwable, world =>
      if world.fileSystems dir then none else some (.error throwable, world)
  | .cacheGet path, .ok, world => some (world.hdfsListCache path, world)
  | .cachePut path listing, .ok, world =>
      some ((), { world with
        hdfsListCache := Function.update world.hdfsListCache path (some listing) })
  | .listStatus path, .ok, world =>
      match world.listingFault path, world.hdfs path with
      | some description, _ => some (.error (.io description), world)
      | none, none => some (.error .fileNotFound, world)
      | none, some entries => some (.ok (some entries), world)
  | .listStatus path, .refused, world =>
      if world.listingFault path = none ∧ world.hdfs path = none then some (.ok none, world)
      else none
  | .mkdirs path, .ok, world => some (.ok (), world.makeDirectory path)
  | .mkdirs _, .refused, world => some (.ok (), world)
  | .mkdirs _, .fails throwable, world => some (.error throwable, world)
  | .mkdirs path, .failsLate throwable, world =>
      some (.error throwable, world.makeDirectory path)
  | .combineIntoSeqFile candidates targetDir, .named name, world =>
      if candidates.all fun file => file ∈ world.localFiles file.parent then
        some (.ok (childPath targetDir name), { world with
          localTemp := Function.update world.localTemp (childPath targetDir name)
            (some (.combined candidates)) })
      else none
  | .combineIntoSeqFile _ _, .fails throwable, world => some (.error throwable, world)
  | .randomName, .named name, world =>
      if name ∈ world.drawnNames then none
      else some (name, { world with drawnNames := name :: world.drawnNames })
  | .copyFromLocalFile source target, .ok, world =>
      (world.localTemp source).map fun content =>
        (.ok (), { world.writeFile target content with
          localTemp := Function.update world.localTemp source none })
  | .copyFromLocalFile _ _, .fails throwable, world => some (.error throwable, world)
  | .copyFromLocalFile _ target, .failsLate throwable, world =>
      some (.error throwable, world.writeFile target .fragment)
  | .rename source target, .ok, world =>
      match world.moveFile source target with
      | some moved => some (.ok true, moved)
      | none => some (.ok false, world)
  | .rename _ _, .refused, world => some (.ok false, world)
  | .rename _ _, .fails throwable, world => some (.error throwable, world)
  | .rename source target, .failsLate throwable, world =>
      (world.moveFile source target).map fun moved => (.error throwable, moved)
  | _, _, _ => none

section Answers

attribute [local simp] answer

variable {outcome : Outcome} {world after : World}

/-- Reading the clock moves it forward to the time read. -/
theorem answer_now {use : ClockUse} {reply : Command.Reply (.now use)}
    (h : answer (.now use) outcome world = some (reply, after)) :
    outcome = .reads reply ∧ world.clock ≤ reply ∧ after = { world with clock := reply } := by
  cases outcome with
  | reads millis =>
      simp only [answer] at h
      split at h
      · next hclock =>
          obtain ⟨rfl, rfl⟩ := answer_parts h
          exact ⟨rfl, hclock, rfl⟩
      · simp at h
  | _ => simp [answer] at h

/-- Listing a local directory changes nothing. -/
theorem answer_listFiles {dir : Dir} {reply : Command.Reply (.listFiles dir)}
    (h : answer (.listFiles dir) outcome world = some (reply, after)) :
    after = world ∧ ∀ listing, reply = .ok listing → listing = world.localDirs dir := by
  cases outcome <;> simp only [answer] at h
  case ok =>
    obtain ⟨rfl, rfl⟩ := answer_parts h
    exact ⟨rfl, fun listing hok => (Except.ok.inj hok).symm⟩
  case fails throwable =>
    obtain ⟨rfl, rfl⟩ := answer_parts h
    exact ⟨rfl, fun listing hok => by simp at hok⟩
  all_goals simp at h

/-- A deletion removes the file or changes nothing. -/
theorem answer_delete {file : File} {reply : Command.Reply (.delete file)}
    (h : answer (.delete file) outcome world = some (reply, after)) :
    after = world ∨ after = world.removeLocal file := by
  cases outcome <;> simp only [answer] at h
  case ok => exact .inr (answer_parts h).2
  case refused => exact .inl (answer_parts h).2
  case fails throwable => exact .inl (answer_parts h).2
  all_goals simp at h

/-- Creating a file system changes at most that. -/
theorem answer_unboxLazy {dir : Dir} {reply : Command.Reply (.unboxLazy dir)}
    (h : answer (.unboxLazy dir) outcome world = some (reply, after)) :
    ∃ fileSystems, after = { world with fileSystems := fileSystems } := by
  cases outcome <;> simp only [answer] at h
  case ok => exact ⟨_, (answer_parts h).2⟩
  case fails throwable =>
    split at h
    · simp at h
    · exact ⟨world.fileSystems, (answer_parts h).2⟩
  all_goals simp at h

/-- A lookup in the cache. -/
theorem answer_cacheGet {path : HdfsDir} {reply : Command.Reply (.cacheGet path)}
    (h : answer (.cacheGet path) outcome world = some (reply, after)) :
    reply = world.hdfsListCache path ∧ after = world := by
  cases outcome <;> simp only [answer] at h
  case ok => exact answer_parts h
  all_goals simp at h

/-- A write to the cache. -/
theorem answer_cachePut {path : HdfsDir} {listing : CachedListing}
    {reply : Command.Reply (.cachePut path listing)}
    (h : answer (.cachePut path listing) outcome world = some (reply, after)) :
    after = { world with
      hdfsListCache := Function.update world.hdfsListCache path (some listing) } := by
  cases outcome <;> simp only [answer] at h
  case ok => exact (answer_parts h).2
  all_goals simp at h

/-- Listing an HDFS directory changes nothing; a missing one is reported as such only. -/
theorem answer_listStatus {path : HdfsDir} {reply : Command.Reply (.listStatus path)}
    (h : answer (.listStatus path) outcome world = some (reply, after)) :
    after = world ∧ (reply = .ok (world.hdfs path) ∨
      reply = .error .fileNotFound ∧ world.hdfs path = none ∨
      ∃ description, reply = .error (.io description)) := by
  cases outcome <;> simp only [answer] at h
  case ok =>
    split at h
    · next description _ _ =>
        obtain ⟨hreply, hafter⟩ := answer_parts h
        exact ⟨hafter, .inr (.inr ⟨_, hreply⟩)⟩
    · next _ hnone =>
        obtain ⟨hreply, hafter⟩ := answer_parts h
        exact ⟨hafter, .inr (.inl ⟨hreply, hnone⟩)⟩
    · next entries _ hsome =>
        obtain ⟨hreply, hafter⟩ := answer_parts h
        exact ⟨hafter, .inl (by rw [hreply, hsome])⟩
  case refused =>
    split at h
    · next hnone =>
        obtain ⟨hreply, hafter⟩ := answer_parts h
        exact ⟨hafter, .inl (by rw [hreply, hnone.2])⟩
    · simp at h
  all_goals simp at h

/-- Creating a directory changes at most that. -/
theorem answer_mkdirs {path : HdfsDir} {reply : Command.Reply (.mkdirs path)}
    (h : answer (.mkdirs path) outcome world = some (reply, after)) :
    after = world ∨ after = world.makeDirectory path := by
  cases outcome <;> simp only [answer] at h
  case ok => exact .inr (answer_parts h).2
  case refused => exact .inl (answer_parts h).2
  case fails throwable => exact .inl (answer_parts h).2
  case failsLate throwable => exact .inr (answer_parts h).2
  all_goals simp at h

/-- A combination of local files, if it succeeds, is in a new local file. -/
theorem answer_combineIntoSeqFile {candidates : List File} {dir : Dir}
    {reply : Command.Reply (.combineIntoSeqFile candidates dir)}
    (h : answer (.combineIntoSeqFile candidates dir) outcome world = some (reply, after)) :
    (∃ path, reply = .ok path ∧ after = { world with
      localTemp := Function.update world.localTemp path (some (.combined candidates)) }) ∨
    ((∃ throwable, reply = .error throwable) ∧ after = world) := by
  cases outcome <;> simp only [answer] at h
  case named name =>
    split at h
    · exact .inl ⟨_, answer_parts h⟩
    · simp at h
  case fails throwable => exact .inr ⟨⟨throwable, (answer_parts h).1⟩, (answer_parts h).2⟩
  all_goals simp at h

/-- A drawn name is remembered. -/
theorem answer_randomName {reply : Command.Reply .randomName}
    (h : answer .randomName outcome world = some (reply, after)) :
    after = { world with drawnNames := reply :: world.drawnNames } := by
  cases outcome <;> simp only [answer] at h
  case named name =>
    split at h
    · simp at h
    · obtain ⟨rfl, rfl⟩ := answer_parts h
      rfl
  all_goals simp at h

/-- A copy writes the target or nothing; if it succeeds, with the content of the source. -/
theorem answer_copyFromLocalFile {source : Text} {target : HdfsFile}
    {reply : Command.Reply (.copyFromLocalFile source target)}
    (h : answer (.copyFromLocalFile source target) outcome world = some (reply, after)) :
    (∃ content localTemp, world.localTemp source = some content ∧
      after = { world.writeFile target content with localTemp := localTemp }) ∨
    ((∃ throwable, reply = .error throwable) ∧
      (after = world ∨ after = world.writeFile target .fragment)) := by
  cases outcome <;> simp only [answer] at h
  case ok =>
    obtain ⟨content, hsource, hparts⟩ := Option.map_eq_some_iff.1 h
    exact .inl ⟨content, _, hsource, (Prod.mk.inj hparts).2.symm⟩
  case fails throwable => exact .inr ⟨⟨throwable, (answer_parts h).1⟩, .inl (answer_parts h).2⟩
  case failsLate throwable =>
    exact .inr ⟨⟨throwable, (answer_parts h).1⟩, .inr (answer_parts h).2⟩
  all_goals simp at h

/-- A rename moves the file or changes nothing; if it succeeds, it has moved the file. -/
theorem answer_rename {source target : HdfsFile} {reply : Command.Reply (.rename source target)}
    (h : answer (.rename source target) outcome world = some (reply, after)) :
    world.moveFile source target = some after ∨ (reply ≠ .ok true ∧ after = world) := by
  cases outcome <;> simp only [answer] at h
  case ok =>
    split at h
    · next moved hmoved =>
        rw [(answer_parts h).2]
        exact .inl hmoved
    · refine .inr ⟨fun hok => ?_, (answer_parts h).2⟩
      exact absurd (show Except.ok false = .ok true from (answer_parts h).1.symm.trans hok)
        (by simp)
  case refused =>
    refine .inr ⟨fun hok => ?_, (answer_parts h).2⟩
    exact absurd (show Except.ok false = .ok true from (answer_parts h).1.symm.trans hok)
      (by simp)
  case fails throwable =>
    refine .inr ⟨fun hok => ?_, (answer_parts h).2⟩
    exact absurd (show Except.error throwable = .ok true from (answer_parts h).1.symm.trans hok)
      (by simp)
  case failsLate throwable =>
    obtain ⟨moved, hmoved, hparts⟩ := Option.map_eq_some_iff.1 h
    rw [← (Prod.mk.inj hparts).2]
    exact .inl hmoved
  all_goals simp at h

end Answers

/-- The surroundings of the rounds. -/
abbrev machine : Machine signature where
  World := World
  Outcome := Outcome
  answer := answer

/-- A part of a round that makes requests. -/
def Action (α : Type) : Type := Program signature (Attempt α)

namespace Action

variable {α β : Type}

/-- A computation that makes no request. -/
def attempt (result : Attempt α) : Action α :=
  Program.done result

/-- Go on with the value; a failure ends it all. -/
def andThen (action : Action α) (rest : α → Action β) : Action β :=
  Program.bind action fun
    | .ok value => rest value
    | .error failure => Program.done (.error failure)

instance : Monad Action where
  pure value := attempt (.ok value)
  bind := andThen

/-- A value is passed on. -/
@[simp] theorem attempt_ok_bind (value : α) (rest : α → Action β) :
    (attempt (.ok value) >>= rest) = rest value := rfl

/-- A failure ends it all. -/
@[simp] theorem attempt_error_bind (failure : Failure) (rest : α → Action β) :
    (attempt (.error failure) >>= rest) = attempt (.error failure) := rfl

/-- Sequencing is associative. -/
theorem bind_assoc {γ : Type} (action : Action α) (first : α → Action β) (second : β → Action γ) :
    (action >>= first >>= second) = (action >>= fun value => first value >>= second) := by
  refine (Program.bind_assoc _ _ _).trans (congrArg (Program.bind action) (funext fun result => ?_))
  cases result <;> rfl

/-- End with a `Left`. -/
def left (error : BarnError) : Action α :=
  attempt (.error (.left error))

/-- `validate`: an exception becomes a `Left`. -/
def validate (jvm : Jvm) (detail : Text) (action : Action α) : Action α :=
  Program.bind action fun result => Program.done (Hdfs.validate jvm detail result)

/-- `DateTime.now`, in the default time zone. -/
def now (jvm : Jvm) (use : ClockUse) : Action DateTime :=
  Program.request (.now use) fun millis => attempt (.ok ⟨millis, jvm.zone⟩)

/-- `dir.listFiles`, where no list stands for `null`. -/
def listFiles (dir : Dir) : Action (Option (List File)) :=
  Program.request (.listFiles dir) fun reply => attempt (bare reply)

/-- `file.delete` -/
def delete (file : File) : Action Unit :=
  Program.request (.delete file) fun reply => attempt (bare reply)

/-- `LazyWrapper.unboxLazy`: create the file system at its first use. -/
def unboxLazy (serviceDir : Dir) : Action Unit :=
  Program.request (.unboxLazy serviceDir) fun reply => attempt (bare reply)

/-- `hdfsListCache.get` -/
def cacheGet (path : HdfsDir) : Action (Option CachedListing) :=
  Program.request (.cacheGet path) fun cached => attempt (.ok cached)

/-- `hdfsListCache += path -> listing` -/
def cachePut (path : HdfsDir) (listing : CachedListing) : Action Unit :=
  Program.request (.cachePut path listing) fun _ => attempt (.ok ())

/-- `fs.listStatus` -/
def listStatus (path : HdfsDir) : Action (Option (List Entry)) :=
  Program.request (.listStatus path) fun reply => attempt (bare reply)

/-- `fs.mkdirs` -/
def mkdirs (path : HdfsDir) : Action Unit :=
  Program.request (.mkdirs path) fun reply => attempt (bare reply)

/-- `combineIntoSeqFile` into a new file of a random name. -/
def combineIntoSeqFile (candidates : List File) (targetDir : Dir) : Action Text :=
  Program.request (.combineIntoSeqFile candidates targetDir) fun reply => attempt (bare reply)

/-- `randomName` -/
def randomName : Action Text :=
  Program.request .randomName fun name => attempt (.ok name)

/-- `fs.copyFromLocalFile` -/
def copyFromLocalFile (source : Text) (target : HdfsFile) : Action Unit :=
  Program.request (.copyFromLocalFile source target) fun reply => attempt (bare reply)

/-- `fs.rename` -/
def rename (source target : HdfsFile) : Action Bool :=
  Program.request (.rename source target) fun reply => attempt (bare reply)

end Action

end Barn.Hdfs
