import Barn.Agent.FileOps
import Barn.Agent.Params
import Barn.Data.Feed
import Barn.Hdfs.Shipping
import Barn.Interaction.Refinement

/-!
# The target of an agent

An agent ships the files of one directory to an rsync target while svlogd writes and deletes them
and barn-hdfs cleans up the directory behind the target. The directory and the target make up a
`Feed`. `World.Sound` says when everything is in order; events and deliveries keep it so, and the
lemmas on `answer` say what a round finds out.
-/

namespace Barn.Agent.Delivery

open Interaction

/-- The directory an agent reads, the target it ships to, and the directory behind that target. -/
structure Place where
  sourceDir : Text
  rsyncTarget : Text
  targetDir : Hdfs.Dir

/-- The state around the rounds of an agent. The feed has the names of the log files that svlogd has
created, of those that are there, and of those that have reached the target. -/
structure World where
  feed : Feed Text
  otherFiles : List Text
  selector : ChannelSelector AgentChannel
  collector : Hdfs.World
  cleanups : List (Hdfs.Action (ℤ × ℤ))

/-- How a request goes. `rsync` is the exit code and the output of a dry run. `transfer` is the exit
code of a ship and the length of the file, if it is complete on the target afterwards. -/
inductive Outcome where
  | ok
  | reads (now : Int)
  | rsync (code : Int) (output : Text)
  | transfer (code : Int) (arrived : Option ℕ)
  | wakes (changed : Bool)
  | random (value : Int)

/-- What happens around the rounds: svlogd creates a log file or deletes the oldest one, other files
come and go, a cleanup of the target starts or has a request answered. -/
inductive Event where
  | create (name : Text)
  | rotate
  | touch (names : List Text)
  | cleanup (jvm : Jvm) (limit : DateTime) (minMB : ℤ)
  | answerCleanup (index : ℕ) (outcome : Hdfs.Outcome)

namespace World

/-- The names in the source directory. -/
def fileNames (world : World) : List Text :=
  world.feed.kept ++ world.otherFiles

/-- The names in the directory behind the target. -/
def placedNames (place : Place) (world : World) : List Text :=
  (world.collector.localFiles place.targetDir).map Hdfs.File.getName

/-- A file is complete on the target. One that is there already is not written again. -/
def deliver (place : Place) (name : Text) (length : ℕ) (world : World) : World :=
  { world with
    feed := world.feed.deliver name
    collector :=
      if name ∈ world.placedNames place then world.collector
      else world.collector.receive ⟨place.targetDir, name, false, length⟩ }

end World

variable (place : Place)

/-- The reply of a request and the world after it, if the outcome is possible. A dry run prints the
files that are there and not on the target; a ship to the target leaves it unchanged or with the
complete file. Nothing is said about other targets. -/
def answer : (command : Command) → Outcome → World → Option (command.Reply × World)
  | .pickChannel, .reads now, world =>
      let selector := world.selector.pickChannel now
      some (selector.current, { world with selector := selector })
  | .heartbeat, .reads now, world =>
      some ((), { world with selector := world.selector.heartbeat now })
  | .listLogDirectory directory, .ok, world =>
      if directory = place.sourceDir then some (FileOps.listLogDirectory world.fileNames, world)
      else none
  | .logFilesNotOnTarget _ files target, .rsync code output, world =>
      if target = place.rsyncTarget → FileOps.accepts code →
          (FileOps.getRsyncCandidates output).Perm
          (files.filter fun file => file ∈ world.fileNames ∧ file ∉ world.placedNames place) then
        some (FileOps.logFilesNotOnTarget files code output, world)
      else none
  | .shipFile path target, .transfer code arrived, world =>
      if target ≠ place.rsyncTarget then some (decide (code = 0), world)
      else
        match arrived with
        | none => if code = 0 then none else some (false, world)
        | some length =>
            (world.fileNames.find? fun name => joinPath place.sourceDir name = path).map fun name =>
              (decide (code = 0), world.deliver place name length)
  | .fileExists path, .ok, world =>
      some (decide (∃ name ∈ world.fileNames, joinPath place.sourceDir name = path), world)
  | .waitForNewFileInDirectory _ _, .wakes changed, world => some (changed, world)
  | .sendMetric _, .ok, world => some ((), world)
  | .rand, .random value, world => some (value, world)
  | .sleep _, .ok, world => some ((), world)
  | _, _, _ => none

/-- The surroundings of the rounds. -/
abbrev machine : Machine signature where
  World := World
  Outcome := Outcome
  answer := answer place

/-- An event, if it can happen. The name of a log file is greater than all earlier ones. -/
def occurs : Event → World → Option World
  | .create name, world =>
      if FileOps.isSvlogdFilename name ∧ ∀ other ∈ world.feed.created, other < name then
        some { world with feed := world.feed.create name }
      else none
  | .rotate, world => some { world with feed := world.feed.forget }
  | .touch names, world =>
      if names.any FileOps.isSvlogdFilename then none else some { world with otherFiles := names }
  | .cleanup jvm limit minMB, world =>
      some { world with
        cleanups := world.cleanups ++ [Hdfs.cleanupLocal jvm place.targetDir limit minMB] }
  | .answerCleanup index outcome, world =>
      match world.cleanups[index]? with
      | some (Program.request command next) =>
          (Hdfs.answer command outcome world.collector).map fun answered =>
            { world with
              collector := answered.2
              cleanups := world.cleanups.set index (next answered.1) }
      | _ => none

/-- The rounds of an agent, amid these events. -/
def rounds (barnConf : BarnConf) : Rounds (machine place) Unit where
  Event := Event
  occurs := occurs place
  begin := id
  body := dispatchNewLogs barnConf

/-- The agent and svlogd start, with some log files there, and nothing on the target. -/
structure Initial (world : World) : Prop where
  created_sorted : world.feed.created.Pairwise (· < ·)
  created_svlogd : ∀ name ∈ world.feed.created, FileOps.isSvlogdFilename name
  kept_suffix : world.feed.kept <:+ world.feed.created
  delivered_eq : world.feed.delivered = []
  otherFiles : ∀ name ∈ world.otherFiles, ¬FileOps.isSvlogdFilename name
  selector : ∃ hostName now conf, conf.sourceDir = place.sourceDir ∧
    Params.createChannelSelector hostName now conf = some world.selector
  targetDir_empty : world.collector.localFiles place.targetDir = []
  cleanups_eq : world.cleanups = []

/-- A request to delete a file of the target that is older than one that was delivered. -/
def Superseded (delivered : List Text) (command : Hdfs.Command) : Prop :=
  ∃ file, command = .delete file ∧ file.parent = place.targetDir ∧
    ∃ newer ∈ delivered, file.getName < newer

/-- What is left of a cleanup lists the directory first or deletes only what is superseded. -/
def Careful (delivered : List Text) (cleanup : Hdfs.Action (ℤ × ℤ)) : Prop :=
  (∃ jvm limit minMB, cleanup = Hdfs.cleanupLocal jvm place.targetDir limit minMB) ∨
    cleanup.Asks (Superseded place delivered)

/-- All channels of the selector start from the source directory. -/
def ReadsSource : ChannelSelector AgentChannel → Prop
  | .single channel => channel.sourceDir = place.sourceDir
  | .failover selector =>
      selector.primary.sourceDir = place.sourceDir ∧ selector.secondary.sourceDir = place.sourceDir

/-- The feed is in order, and the target holds files that were delivered, the newest among them. -/
structure World.Sound (world : World) : Prop where
  feed : world.feed.Sound
  svlogd : ∀ name ∈ world.feed.created, FileOps.isSvlogdFilename name
  otherFiles : ∀ name ∈ world.otherFiles, ¬FileOps.isSvlogdFilename name
  selector : ReadsSource place world.selector
  placed : (world.placedNames place).Sublist world.feed.delivered
  parent : ∀ file ∈ world.collector.localFiles place.targetDir, file.parent = place.targetDir
  newest : ∀ name, world.feed.delivered.getLast? = some name → name ∈ world.placedNames place
  careful : ∀ cleanup ∈ world.cleanups, Careful place world.feed.delivered cleanup

variable {place} {world world' after : World} {selector : ChannelSelector AgentChannel}

section Selector

/-- Choosing a channel and signs of life keep the channels. -/
theorem ReadsSource.pickChannel (h : ReadsSource place selector) (now : Int) :
    ReadsSource place (selector.pickChannel now) := by
  cases selector with
  | single channel => exact h
  | failover selector =>
      rcases selector.pickChannel_cases now with ⟨_, heq⟩ | ⟨_, heq⟩
      · rw [ChannelSelector.pickChannel, heq]
        exact h
      · rw [ChannelSelector.pickChannel, heq]
        exact h

theorem ReadsSource.heartbeat (h : ReadsSource place selector) (now : Int) :
    ReadsSource place (selector.heartbeat now) := by
  cases selector with
  | single channel => exact h
  | failover selector =>
      rw [ChannelSelector.heartbeat, FailoverChannelSelector.heartbeat]
      split <;> exact h

/-- The channel in use starts from the source directory. -/
theorem ReadsSource.current (h : ReadsSource place selector) :
    selector.current.sourceDir = place.sourceDir := by
  cases selector with
  | single channel => exact h
  | failover selector =>
      rw [ChannelSelector.current, FailoverChannelSelector.current]
      split
      · exact h.1
      · exact h.2

/-- So do the channels that an agent is started with. -/
theorem readsSource_createChannelSelector {hostName : Text} {now : Int} {conf : Params.BarnConf}
    (h : Params.createChannelSelector hostName now conf = some selector)
    (hsource : conf.sourceDir = place.sourceDir) : ReadsSource place selector := by
  rw [Params.createChannelSelector] at h
  split at h
  · rw [← Option.some.inj h]
    exact hsource
  · split at h
    · rw [← Option.some.inj h]
      exact ⟨hsource, hsource⟩
    · simp at h

end Selector

section Cleanups

variable {delivered : List Text} {file : Hdfs.File}

/-- A file that was delivered later supersedes a file as well. -/
theorem Superseded.mono {command : Hdfs.Command} (h : Superseded place delivered command)
    (later : List Text) : Superseded place (delivered ++ later) command := by
  obtain ⟨file, hcommand, hparent, newer, hnewer, hlt⟩ := h
  exact ⟨file, hcommand, hparent, newer, List.mem_append_left _ hnewer, hlt⟩

theorem Careful.mono {cleanup : Hdfs.Action (ℤ × ℤ)} (h : Careful place delivered cleanup)
    (later : List Text) : Careful place (delivered ++ later) cleanup :=
  h.imp_right fun hasks => Program.Asks.mono hasks fun _ hcommand => hcommand.mono later

/-- The files of a listing of the target are superseded, except the last one. -/
theorem World.Sound.superseded (h : world.Sound place)
    (hfile : file ∈
      (Hdfs.sortedFiles (world.collector.localFiles place.targetDir)).rdrop 1) :
    Superseded place world.feed.delivered (.delete file) := by
  obtain ⟨before, after, hdropped⟩ := List.append_of_mem hfile
  obtain ⟨after, hafter, hsplit⟩ := Hdfs.rdrop_one_split.1 ⟨after, hdropped⟩
  obtain ⟨newer, rest, rfl⟩ := List.exists_cons_of_ne_nil hafter
  have hmem : ∀ other ∈ [file, newer], other ∈ world.collector.localFiles place.targetDir := by
    intro other hother
    refine Hdfs.mem_of_mem_sortedFiles ?_
    rw [hsplit]
    simp only [List.mem_append, List.mem_cons, List.not_mem_nil, or_false] at hother ⊢
    tauto
  have hnames : (world.placedNames place).Pairwise (· < ·) :=
    h.feed.delivered_sorted.sublist h.placed
  have hdistinct : file.getName ≠ newer.getName := by
    have hnodup := Hdfs.nodup_names_sortedFiles hnames.nodup
    rw [hsplit, List.map_append, List.nodup_append] at hnodup
    intro heq
    exact (List.nodup_cons.1 hnodup.2.1).1 (by simp [heq])
  have hpaths := Hdfs.pairwise_sortedFiles (world.collector.localFiles place.targetDir)
  rw [hsplit] at hpaths
  have hle := (List.pairwise_cons.1 (List.pairwise_append.1 hpaths).2.1).1 newer List.mem_cons_self
  have hparent := h.parent file (hmem file (by simp))
  have hdelivered : newer.getName ∈ world.feed.delivered :=
    h.placed.subset (List.mem_map_of_mem (hmem newer (by simp)))
  refine ⟨file, rfl, hparent, newer.getName, hdelivered, ?_⟩
  -- The paths differ in the names only.
  refine (lt_or_gt_of_ne hdistinct).resolve_right fun hgt => ?_
  rw [Hdfs.File.path, Hdfs.File.path, hparent, h.parent newer (hmem newer (by simp))] at hle
  exact absurd hle (not_le.2 (List.append_left_lt hgt))

/-- A cleanup lists the directory, and of what it finds there it deletes only what is superseded. -/
theorem World.Sound.careful_cleanupLocal (h : world.Sound place) (jvm : Jvm) (limit : DateTime)
    (minMB : ℤ) :
    ∃ next, Hdfs.cleanupLocal jvm place.targetDir limit minMB =
        @Program.request Hdfs.signature _ (.listFiles place.targetDir) next ∧
      ∀ outcome reply collector,
        Hdfs.answer (.listFiles place.targetDir) outcome world.collector = some (reply, collector) →
        Program.Asks (Superseded place world.feed.delivered) (next reply) := by
  refine ⟨_, rfl, fun outcome reply collector hanswer => ?_⟩
  obtain ⟨_, hlisting⟩ := Hdfs.answer_listFiles hanswer
  match reply with
  | .error throwable => exact trivial
  | .ok none => exact trivial
  | .ok (some listing) =>
      have hfound : world.collector.localFiles place.targetDir = listing := by
        rw [Hdfs.World.localFiles, ← hlisting _ rfl, Option.getD_some]
      refine Hdfs.Action.asks_validate (Hdfs.asks_deleteRetained jvm limit minMB ?_ _)
      intro file hfile
      rw [← hfound] at hfile
      exact h.superseded hfile

/-- The target without a superseded file still holds the newest one. -/
theorem World.Sound.removeLocal (h : world.Sound place)
    (hold : Superseded place world.feed.delivered (.delete file)) :
    World.Sound place { world with collector := world.collector.removeLocal file } := by
  obtain ⟨other, hcommand, hparent, newer, hnewer, hlt⟩ := hold
  obtain rfl := Hdfs.Command.delete.inj hcommand
  have hfiles : (world.collector.removeLocal file).localFiles place.targetDir =
      (world.collector.localFiles place.targetDir).filter (· ≠ file) := by
    rw [← hparent]
    simp only [Hdfs.World.localFiles, Hdfs.World.removeLocal, Function.update_self]
    cases world.collector.localDirs file.parent <;> rfl
  refine { h with placed := ?_, parent := ?_, newest := ?_ }
  · rw [World.placedNames, hfiles]
    exact (List.filter_sublist.map _).trans h.placed
  · intro kept hkept
    rw [hfiles] at hkept
    exact h.parent kept (List.mem_filter.1 hkept).1
  · intro name hname
    obtain ⟨kept, hkept, rfl⟩ := List.mem_map.1 (h.newest name hname)
    rw [World.placedNames, hfiles]
    refine List.mem_map_of_mem (List.mem_filter.2 ⟨hkept, decide_eq_true ?_⟩)
    rintro rfl
    -- Nothing that was delivered is newer than the newest.
    obtain ⟨init, hinit⟩ := List.getLast?_eq_some_iff.1 hname
    have hsorted := h.feed.delivered_sorted
    rw [hinit] at hnewer hsorted
    rcases List.mem_append.1 hnewer with hearlier | hsame
    · exact lt_asymm hlt ((List.pairwise_append.1 hsorted).2.2 newer hearlier _ List.mem_cons_self)
    · rw [List.mem_singleton.1 hsame] at hlt
      exact lt_irrefl _ hlt

/-- A cleanup has a request answered. -/
theorem World.Sound.answerCleanup (h : world.Sound place) {index : ℕ} {command : Hdfs.Command}
    {next : command.Reply → Hdfs.Action (ℤ × ℤ)} {outcome : Hdfs.Outcome} {reply : command.Reply}
    {collector : Hdfs.World}
    (hget : world.cleanups[index]? = some (@Program.request Hdfs.signature _ command next))
    (hanswer : Hdfs.answer command outcome world.collector = some (reply, collector)) :
    World.Sound place { world with
      collector := collector
      cleanups := world.cleanups.set index (next reply) } := by
  have hgoes : (next reply).Asks (Superseded place world.feed.delivered) ∧
      World.Sound place { world with collector := collector } := by
    rcases h.careful _ (List.mem_of_getElem? hget) with ⟨jvm, limit, minMB, hfresh⟩ | hasks
    · obtain ⟨next', hcleanup, hcareful⟩ := h.careful_cleanupLocal jvm limit minMB
      rw [hcleanup] at hfresh
      cases hfresh
      obtain rfl := (Hdfs.answer_listFiles hanswer).1
      exact ⟨hcareful _ _ _ hanswer, h⟩
    · obtain ⟨hold, hnext⟩ := hasks
      obtain ⟨file, rfl, hrest⟩ := id hold
      refine ⟨hnext reply, ?_⟩
      rcases Hdfs.answer_delete hanswer with rfl | rfl
      · exact h
      · exact h.removeLocal hold
  refine { hgoes.2 with careful := fun cleanup hcleanup => ?_ }
  rcases List.mem_or_eq_of_mem_set hcleanup with hother | rfl
  · exact h.careful cleanup hother
  · exact .inr hgoes.1

end Cleanups

section Steps

/-- What happens around the rounds keeps everything in order and delivers nothing. -/
theorem World.Sound.occurs {event : Event} (h : world.Sound place)
    (hoccurs : occurs place event world = some world') :
    world'.Sound place ∧ world.feed.Later world'.feed := by
  cases event with
  | create name =>
      obtain ⟨hname, hworld⟩ := Option.ite_none_right_eq_some.1 hoccurs
      obtain rfl := Option.some.inj hworld
      refine ⟨{ h with feed := h.feed.create hname.2, svlogd := fun other hother => ?_ },
        Feed.Later.create hname.2⟩
      rcases List.mem_append.1 hother with hold | hsame
      · exact h.svlogd other hold
      · rw [List.mem_singleton.1 hsame]
        exact hname.1
  | rotate =>
      obtain rfl := Option.some.inj hoccurs
      exact ⟨{ h with feed := h.feed.forget }, Feed.Later.forget _⟩
  | touch names =>
      obtain ⟨hnames, hworld⟩ := Option.ite_none_left_eq_some.1 hoccurs
      obtain rfl := Option.some.inj hworld
      refine ⟨{ h with otherFiles := fun name hname hlog => ?_ }, Feed.Later.refl _⟩
      exact hnames (List.any_eq_true.2 ⟨name, hname, hlog⟩)
  | cleanup jvm limit minMB =>
      obtain rfl := Option.some.inj hoccurs
      refine ⟨{ h with careful := fun cleanup hcleanup => ?_ }, Feed.Later.refl _⟩
      rcases List.mem_append.1 hcleanup with hold | hsame
      · exact h.careful cleanup hold
      · exact .inl ⟨jvm, limit, minMB, List.mem_singleton.1 hsame⟩
  | answerCleanup index outcome =>
      simp only [Delivery.occurs] at hoccurs
      split at hoccurs
      · next command next hget =>
          obtain ⟨⟨reply, collector⟩, hanswer, rfl⟩ := Option.map_eq_some_iff.1 hoccurs
          exact ⟨h.answerCleanup hget hanswer, Feed.Later.refl _⟩
      · simp at hoccurs

/-- A delivery of the file that is next keeps everything in order. -/
theorem World.Sound.deliver (h : world.Sound place) {name : Text} (hnext : world.feed.Next name)
    (length : ℕ) : (world.deliver place name length).Sound place := by
  have habsent : name ∉ world.placedNames place :=
    fun hplaced => lt_irrefl _ (hnext.newer name (h.placed.subset hplaced))
  have hfiles : (world.deliver place name length).collector.localFiles place.targetDir =
      world.collector.localFiles place.targetDir ++ [⟨place.targetDir, name, false, length⟩] := by
    rw [World.deliver, if_neg habsent]
    simp [Hdfs.World.receive, Hdfs.World.localFiles]
  have hnames : (world.deliver place name length).placedNames place =
      world.placedNames place ++ [name] := by
    rw [World.placedNames, hfiles, List.map_append]
    rfl
  refine { h with
    feed := h.feed.deliver hnext, placed := ?_, parent := ?_, newest := ?_, careful := ?_ }
  · rw [hnames]
    exact h.placed.append (List.Sublist.refl _)
  · intro file hfile
    rw [hfiles] at hfile
    rcases List.mem_append.1 hfile with hold | hsame
    · exact h.parent file hold
    · rw [List.mem_singleton.1 hsame]
  · intro newest hnewest
    rw [World.deliver, Feed.deliver, List.getLast?_concat] at hnewest
    rw [hnames, ← Option.some.inj hnewest]
    exact List.mem_append_right _ List.mem_cons_self
  · exact fun cleanup hcleanup => (h.careful cleanup hcleanup).mono [name]

end Steps

section Requests

variable {command : Command} {outcome : Outcome} {reply : command.Reply}

variable (place) in
/-- A request that is not a ship to the target. -/
def Harmless : Command → Prop
  | .shipFile _ target => target ≠ place.rsyncTarget
  | _ => True

/-- A harmless request changes nothing but the channel in use. -/
theorem answer_harmless (h : Harmless place command)
    (hanswer : answer place command outcome world = some (reply, after)) :
    after = world ∨ ∃ selector, (ReadsSource place world.selector → ReadsSource place selector) ∧
      after = { world with selector := selector } := by
  cases command <;> cases outcome <;> simp only [answer, reduceCtorEq] at hanswer
  case pickChannel.reads now =>
    exact .inr ⟨_, fun hreads => hreads.pickChannel now, (answer_parts hanswer).2⟩
  case heartbeat.reads now =>
    exact .inr ⟨_, fun hreads => hreads.heartbeat now, (answer_parts hanswer).2⟩
  case listLogDirectory.ok directory =>
    split at hanswer
    · exact .inl (answer_parts hanswer).2
    · simp at hanswer
  case logFilesNotOnTarget.rsync directory files target code output =>
    split at hanswer
    · exact .inl (answer_parts hanswer).2
    · simp at hanswer
  case shipFile.transfer path target code arrived =>
    split at hanswer
    · exact .inl (answer_parts hanswer).2
    · next htarget => exact absurd h htarget
  all_goals exact .inl (answer_parts hanswer).2

/-- What the agent finds out about the source directory. -/
theorem answer_listLogDirectory {directory : Text} {listing : List Text} (h : world.Sound place)
    (hanswer : answer place (.listLogDirectory directory) outcome world = some (listing, after)) :
    after = world ∧ world.feed.Listed listing := by
  cases outcome <;> simp only [answer, reduceCtorEq] at hanswer
  case ok =>
    split at hanswer
    · obtain ⟨rfl, rfl⟩ := answer_parts hanswer
      refine ⟨rfl, ?_⟩
      have hlogs : ∀ name ∈ after.feed.kept, FileOps.isSvlogdFilename name :=
        fun name hname => h.svlogd name (h.feed.kept_suffix.subset hname)
      have hsorted := h.feed.created_sorted.sublist h.feed.kept_suffix.sublist
      rcases FileOps.listLogDirectory_eq hsorted hlogs h.otherFiles with hlisting | hlisting
      · rw [World.fileNames, hlisting]
        exact .kept h.feed
      · rw [World.fileNames, hlisting]
        exact .nil
    · simp at hanswer

/-- The candidates of a round that ships to the target are pending. -/
theorem answer_logFilesNotOnTarget {directory target : Text} {listing : List Text}
    {filesNotOnServer : Validation (List Text)} (h : world.Sound place)
    (hlisted : world.feed.Listed listing)
    (hanswer : answer place (.logFilesNotOnTarget directory listing target) outcome world =
      some (filesNotOnServer, after)) :
    after = world ∧ (target = place.rsyncTarget → ∀ missing, filesNotOnServer = .ok missing →
      world.feed.Pending (tailIntersection listing missing)) := by
  cases outcome <;> simp only [answer, reduceCtorEq] at hanswer
  case rsync code output =>
    obtain ⟨hprints, hparts⟩ := Option.ite_none_right_eq_some.1 hanswer
    obtain ⟨hreply, rfl⟩ := answer_parts hparts
    refine ⟨rfl, fun htarget missing hok => ?_⟩
    rw [hok, FileOps.logFilesNotOnTarget] at hreply
    split at hreply
    · next hnone =>
        rw [List.length_eq_zero_iff.1 hnone]
        exact .nil
    · split at hreply
      · simp at hreply
      · next haccepts =>
          rw [not_not] at haccepts
          have hsorted := h.feed.created_sorted.sublist hlisted.sublist
          have hmissing := FileOps.insertionSort_eq_of_perm (hprints htarget haccepts)
            (hsorted.filter _)
          rw [← Except.ok.inj hreply] at hmissing
          have hsublist : missing.Sublist listing := hmissing ▸ List.filter_sublist
          have htail := tailIntersection_eq_filter hsorted hsublist
          have hcounts : ∀ name ∈ listing, name ∈ missing ↔
              name ∈ after.feed.kept ∧ name ∉ after.placedNames place := by
            intro name hname
            have hlog := h.svlogd name (hlisted.sublist.subset hname)
            have hother : name ∉ after.otherFiles := fun hmem => h.otherFiles name hmem hlog
            simp [hmissing, World.fileNames, hname, hother]
          refine hlisted.pending h.feed (fun name hname => h.placed.subset hname) h.newest hcounts
            ?_ ?_
          · rw [htail]
            exact List.filter_sublist
          · intro name hname
            rw [htail, List.mem_filter, decide_eq_true_eq]
            exact and_iff_right hname

/-- A file of a path is the one whose name ends it. -/
theorem joinPath_inj {directory name other : Text}
    (h : joinPath directory name = joinPath directory other) : name = other := by
  rw [joinPath, joinPath] at h
  split at h <;> exact List.append_cancel_left h

/-- A ship to the target, if it fails, may have delivered the file all the same. -/
theorem answer_shipFile {el : Text} {shipped : Bool}
    (hanswer : answer place (.shipFile (joinPath place.sourceDir el) place.rsyncTarget) outcome
      world = some (shipped, after)) :
    (shipped = false ∧ after = world) ∨
      ∃ length, el ∈ world.fileNames ∧ after = world.deliver place el length := by
  cases outcome <;> simp only [answer, reduceCtorEq] at hanswer
  case transfer code arrived =>
    rw [if_neg (not_not.2 rfl)] at hanswer
    cases arrived with
    | none =>
        obtain ⟨_, hparts⟩ := Option.ite_none_left_eq_some.1 hanswer
        exact .inl (answer_parts hparts)
    | some length =>
        obtain ⟨name, hname, hparts⟩ := Option.map_eq_some_iff.1 hanswer
        obtain rfl := joinPath_inj (by simpa using List.find?_some hname)
        exact .inr ⟨length, List.mem_of_find?_eq_some hname, (Prod.mk.inj hparts).2.symm⟩

/-- A file that is not there has been deleted. -/
theorem answer_fileExists {el : Text} {present : Bool}
    (hanswer : answer place (.fileExists (joinPath place.sourceDir el)) outcome world =
      some (present, after)) :
    after = world ∧ (present = false → el ∉ world.feed.kept) := by
  cases outcome <;> simp only [answer, reduceCtorEq] at hanswer
  case ok =>
    obtain ⟨rfl, rfl⟩ := answer_parts hanswer
    refine ⟨rfl, fun habsent hkept => of_decide_eq_false habsent ?_⟩
    exact ⟨el, List.mem_append_left _ hkept, rfl⟩

/-- A round starts with a channel of the agent. -/
theorem answer_pickChannel {channel : AgentChannel} (h : world.Sound place)
    (hanswer : answer place .pickChannel outcome world = some (channel, after)) :
    channel.sourceDir = place.sourceDir ∧ ∃ selector, ReadsSource place selector ∧
      after = { world with selector := selector } := by
  cases outcome <;> simp only [answer, reduceCtorEq] at hanswer
  case reads now =>
    have hreads := h.selector.pickChannel now
    obtain ⟨rfl, rfl⟩ := answer_parts hanswer
    exact ⟨hreads.current, _, hreads, rfl⟩

end Requests

end Barn.Agent.Delivery
