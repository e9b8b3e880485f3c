import Barn.Agent.Delivery
import Barn.Agent.Process
import Barn.Agent.Requests

/-!
# The agent deployed

The machine that runs an agent: directories, rsync processes, datagrams. Its worlds are those of
`Barn.Agent.Target` with what is sent to the monitor, so every call of the agent's objects can be
compared with the request it stands for (`realizes_perform`). What `delivery_inOrder` says of rounds
that make one request for a ship holds of an agent that tries again in between
(`deployed_inOrder`).
-/

namespace Barn.Agent.Delivery

open Interaction Relation

/-- The state around an agent, with the datagrams it has sent. -/
structure System where
  world : World
  datagrams : List (Int × Text)

/-- How a call goes. `exits` is the exit code and the output of a process, if it was started, and
the length of the file that it completed on the target, if it did. -/
inductive SystemOutcome where
  | ok
  | reads (now : Int)
  | entries (listing : Option (List Text))
  | exits (result : Option (Int × Text)) (arrived : Option ℕ)
  | random (value : Int)

/-- What rsync makes of its arguments. -/
structure RsyncCall where
  dryRun : Bool
  sources : List Text
  target : Text

/-- An argument that is an option. -/
def isOption (arg : Text) : Bool :=
  arg.head? = some 45

/-- The options come first, then the sources, and the target is the last argument. -/
def parseRsync : List Text → Option RsyncCall
  | [] => none
  | _ :: args =>
      let operands := args.dropWhile isOption
      operands.getLast?.map fun target =>
        ⟨rsyncDryRunFlag ∈ args.takeWhile isOption, operands.dropLast, target⟩

variable (place : Place)

/-- The name of the file of a path, if it is there. -/
def World.nameOf (world : World) (path : Text) : Option Text :=
  world.fileNames.find? fun name => joinPath place.sourceDir name = path

/-- A process of rsync. A dry run prints the names of the sources that are there and not on the
target. A ship leaves the target unchanged or with the complete file, and unchanged if the server
did not accept the connection. Nothing is said about other targets. -/
def rsync (args : List Text) (result : Option (Int × Text)) (arrived : Option ℕ)
    (system : System) : Option (Option (Int × Text) × System) :=
  match parseRsync args, result with
  | _, none => some (none, system)
  | none, some _ => none
  | some parsed, some (code, output) =>
      if parsed.target ≠ place.rsyncTarget then some (some (code, output), system)
      else if parsed.dryRun then
        if FileOps.accepts code → (FileOps.getRsyncCandidates output).Perm
            ((parsed.sources.filterMap (system.world.nameOf place)).filter
              fun name => name ∉ system.world.placedNames place) then
          some (some (code, output), system)
        else none
      else
        match parsed.sources, arrived with
        | [_], none => if code = 0 then none else some (some (code, output), system)
        | [path], some length =>
            if code = clientServerProtocol then none
            else (system.world.nameOf place path).map fun name =>
              (some (code, output), { system with world := system.world.deliver place name length })
        | _, _ => none

/-- The reply of a call and the state after it, if the outcome is possible. -/
def systemAnswer : (systemCall : SystemCall) → SystemOutcome → System →
    Option (systemCall.Reply × System)
  | .pickChannel, .reads now, system =>
      let selector := system.world.selector.pickChannel now
      some (selector.current, { system with world := { system.world with selector := selector } })
  | .heartbeat, .reads now, system =>
      some ((), { system with
        world := { system.world with selector := system.world.selector.heartbeat now } })
  | .selectorMetrics, .reads now, system => some (system.world.selector.sendMetrics now, system)
  | .directoryEntries _, .entries none, system => some (none, system)
  | .directoryEntries directory, .entries (some listing), system =>
      if directory = place.sourceDir ∧ listing.Perm system.world.fileNames then
        some (some listing, system)
      else none
  | .fileExists path, .ok, system =>
      some (decide (∃ name ∈ system.world.fileNames, joinPath place.sourceDir name = path), system)
  | .runCommand cmd args, .exits result arrived, system =>
      if cmd = rsyncExecutableName then rsync place args result arrived system
      else some (result, system)
  | .sendDatagram port message, .ok, system =>
      some ((), { system with datagrams := system.datagrams ++ [(port, message)] })
  | .rand, .random value, system => some (value, system)
  | .sleep _, .ok, system => some ((), system)
  | _, _, _ => none

/-- The surroundings of a deployed agent. -/
abbrev systemMachine : Machine systemSignature where
  World := System
  Outcome := SystemOutcome
  answer := systemAnswer place

/-- The passes of the main loop of an agent, amid the events of the rounds. -/
def deployed (barnConf : Params.BarnConf) : Rounds (systemMachine place) Unit where
  Event := Event
  occurs := fun event system =>
    (occurs place event system.world).map fun world => { system with world := world }
  begin := id
  body := barnAgentPass barnConf

variable {place} {system after : System} {command : Command}

section Parsing

/-- A path in a directory begins like the directory. -/
theorem isOption_joinPath (hsource : ∃ first rest, place.sourceDir = first :: rest ∧ first ≠ 45)
    (name : Text) : isOption (joinPath place.sourceDir name) = false := by
  obtain ⟨first, rest, heq, hfirst⟩ := hsource
  rw [joinPath, heq]
  split <;> simp [isOption, hfirst]

/-- Options that are followed by something else end there. -/
theorem parseRsync_options {options : List Text} {first : Text} (program target : Text)
    (operands : List Text) (hoptions : ∀ option ∈ options, isOption option = true)
    (hfirst : isOption first = false) :
    parseRsync (program :: (options ++ first :: operands ++ [target])) =
      some ⟨rsyncDryRunFlag ∈ options, first :: operands, target⟩ := by
  have hdrop : (options ++ (first :: operands ++ [target])).dropWhile isOption =
      first :: operands ++ [target] := by
    rw [List.dropWhile_append_of_pos hoptions, List.cons_append,
      List.dropWhile_cons_of_neg (by simp [hfirst])]
  have htake : (options ++ (first :: operands ++ [target])).takeWhile isOption = options := by
    rw [List.takeWhile_append_of_pos hoptions, List.cons_append,
      List.takeWhile_cons_of_neg (by simp [hfirst]), List.append_nil]
  rw [parseRsync, List.append_assoc, hdrop, htake, List.getLast?_concat, List.dropLast_concat]
  rfl

/-- The arguments of a dry run are understood. -/
theorem parseRsync_rsyncDryRun {filePath target : Text} (filePaths : List Text)
    (hpath : isOption filePath = false) : parseRsync (rsyncDryRun (filePath :: filePaths) target) =
      some ⟨true, filePath :: filePaths, target⟩ := by
  have hoptions : ∀ option ∈ rsyncDryRunFlag :: rsyncFlags, isOption option = true := by decide
  have hparsed := parseRsync_options rsyncExecutableName target filePaths hoptions hpath
  simpa [rsyncDryRun] using hparsed

/-- So are those of a run that ships a file. -/
theorem parseRsync_rsyncWetRun {filePath target : Text} (hpath : isOption filePath = false) :
    parseRsync (rsyncWetRun filePath target) = some ⟨false, [filePath], target⟩ := by
  have hoptions : ∀ option ∈ rsyncFlags, isOption option = true := by decide
  have hparsed := parseRsync_options rsyncExecutableName target [] hoptions hpath
  have hflag : rsyncDryRunFlag ∉ rsyncFlags := by decide
  simpa [rsyncWetRun, hflag] using hparsed

end Parsing

section Realizes

/-- The agent reads the source directory. -/
abbrev Reads (place : Place) (world : World) : Prop :=
  ReadsSource place world.selector

/-- An implementation of a request, on the machine. -/
abbrev Realizes (place : Place) (command : Command) (procedure : Procedure command.Reply) : Prop :=
  @Program.Realizes signature systemSignature (machine place) (systemMachine place)
    System.world (Reads place) command procedure

variable {args : List Text} {result reply : Option (Int × Text)} {arrived : Option ℕ}

/-- What a process leaves is its result, and it changes nothing if it was not started or its
connection was not accepted. -/
theorem rsync_eq_some (h : rsync place args result arrived system = some (reply, after)) :
    reply = result ∧
      ((∀ code output, result = some (code, output) → code = clientServerProtocol) →
        after = system) := by
  unfold rsync at h
  split at h
  · obtain ⟨rfl, rfl⟩ := answer_parts h
    exact ⟨rfl, fun _ => rfl⟩
  · simp at h
  · next parsed code output _ =>
      split at h
      · obtain ⟨rfl, rfl⟩ := answer_parts h
        exact ⟨rfl, fun _ => rfl⟩
      · split at h
        · obtain ⟨_, hparts⟩ := Option.ite_none_right_eq_some.1 h
          obtain ⟨rfl, rfl⟩ := answer_parts hparts
          exact ⟨rfl, fun _ => rfl⟩
        · split at h
          · obtain ⟨_, hparts⟩ := Option.ite_none_left_eq_some.1 h
            obtain ⟨rfl, rfl⟩ := answer_parts hparts
            exact ⟨rfl, fun _ => rfl⟩
          · obtain ⟨hcode, hparts⟩ := Option.ite_none_left_eq_some.1 h
            obtain ⟨name, _, hname⟩ := Option.map_eq_some_iff.1 hparts
            obtain ⟨rfl, rfl⟩ := Prod.mk.inj hname
            exact ⟨rfl, fun hretry => absurd (hretry code output rfl) hcode⟩
          · simp at h

/-- An answer to a call of rsync is the result of such a process. -/
theorem systemAnswer_rsync {outcome : SystemOutcome} {reply : Option (Int × Text)}
    (h : systemAnswer place (.runCommand (text "rsync") args) outcome system =
      some (reply, after)) :
    ∃ arrived, rsync place args reply arrived system = some (reply, after) := by
  cases outcome <;> simp only [systemAnswer, reduceCtorEq] at h
  case exits result arrived =>
    have hprocess : rsync place args result arrived system = some (reply, after) :=
      (if_pos (rfl : text "rsync" = rsyncExecutableName)).symm.trans h
    obtain ⟨rfl, _⟩ := rsync_eq_some hprocess
    exact ⟨arrived, hprocess⟩

/-- Trying again realizes a request if every process that is not followed by another one does. -/
theorem realizes_doRsyncLoop (command : Command) (finish : Int × Text → command.Reply)
    (hfinish : ∀ system, Reads place system.world → ∀ rsyncOutput arrived reply after,
      rsync place args (some rsyncOutput) arrived system = some (reply, after) →
        ∃ outcome, answer place command outcome system.world =
          some (finish rsyncOutput, after.world))
    (last : Int × Text) (tries : ℕ) :
    Realizes place command
      ((doRsyncLoop args last (tries + 1)).bind fun output => .done (finish output)) := by
  -- On the tries that are left; the last one is final whatever its exit code is.
  induction tries generalizing last with
  | zero =>
      intro system hreads outcome reply after hanswer
      obtain ⟨arrived, hprocess⟩ := systemAnswer_rsync hanswer
      cases reply with
      | none =>
          refine .inl ⟨congrArg System.world ((rsync_eq_some hprocess).2 (by simp)), ?_⟩
          exact fun _ _ _ reply => nomatch reply
      | some output =>
          obtain ⟨outcome, hanswer'⟩ := hfinish system hreads output arrived _ after hprocess
          refine .inr ⟨finish output, outcome, ?_, hanswer'⟩
          show Program.bind (if output.1 ≠ clientServerProtocol then .done output
            else doRsyncLoop args output 0) _ = _
          split <;> rfl
  | succ tries ih =>
      intro system hreads outcome reply after hanswer
      obtain ⟨arrived, hprocess⟩ := systemAnswer_rsync hanswer
      cases reply with
      | none =>
          refine .inl ⟨congrArg System.world ((rsync_eq_some hprocess).2 (by simp)), ?_⟩
          exact fun _ _ _ reply => nomatch reply
      | some output =>
          by_cases hcode : output.1 = clientServerProtocol
          · -- The connection was not accepted: nothing has happened, and there is another try.
            refine .inl ⟨congrArg System.world ((rsync_eq_some hprocess).2 ?_), ?_⟩
            · intro code text hresult
              rw [Option.some.inj hresult] at hcode
              exact hcode
            · show Realizes place command (Program.bind (if output.1 ≠ clientServerProtocol then
                .done output else doRsyncLoop args output (tries + 1)) _)
              rw [if_neg (not_not.2 hcode)]
              exact ih output
          · obtain ⟨outcome, hanswer'⟩ := hfinish system hreads output arrived _ after hprocess
            refine .inr ⟨finish output, outcome, ?_, hanswer'⟩
            show Program.bind (if output.1 ≠ clientServerProtocol then .done output
              else doRsyncLoop args output (tries + 1)) _ = _
            rw [if_pos hcode]
            rfl

/-- The order in which a directory is read does not matter. -/
theorem listLogDirectory_perm {files others : List Text} (h : files.Perm others) :
    FileOps.listLogDirectory files = FileOps.listLogDirectory others := by
  have hsorted : FileOps.listFileNames files = FileOps.listFileNames others := by
    refine List.Perm.eq_of_pairwise' (List.pairwise_insertionSort _ _)
      (List.pairwise_insertionSort _ _) ?_
    exact (List.perm_insertionSort _ _).trans (h.trans (List.perm_insertionSort _ _).symm)
  rw [FileOps.listLogDirectory, FileOps.listLogDirectory, hsorted]

theorem realizes_listLogDirectory :
    Realizes place (.listLogDirectory place.sourceDir)
      (FileOps.listLogDirectoryCall place.sourceDir) := by
  intro system hreads outcome reply after hanswer
  cases outcome <;> simp only [systemAnswer, reduceCtorEq] at hanswer
  case entries listing =>
    cases listing with
    | none =>
        obtain ⟨rfl, rfl⟩ := answer_parts hanswer
        exact .inl ⟨rfl, fun _ _ _ reply => nomatch reply⟩
    | some listing =>
        obtain ⟨⟨_, hperm⟩, hparts⟩ := Option.ite_none_right_eq_some.1 hanswer
        obtain ⟨rfl, rfl⟩ := answer_parts hparts
        refine .inr ⟨FileOps.listLogDirectory listing, .ok, rfl, ?_⟩
        show (if place.sourceDir = place.sourceDir then _ else _) = _
        rw [if_pos rfl, listLogDirectory_perm hperm]

/-- The file of a path is found by its name. -/
theorem nameOf_joinPath (world : World) (name : Text) :
    world.nameOf place (joinPath place.sourceDir name) =
      if name ∈ world.fileNames then some name else none := by
  rw [World.nameOf]
  cases hfind : world.fileNames.find? fun other =>
      joinPath place.sourceDir other = joinPath place.sourceDir name with
  | none =>
      rw [if_neg fun hmem => List.find?_eq_none.1 hfind name hmem (decide_eq_true rfl)]
  | some found =>
      have hpath := List.find?_some hfind
      obtain rfl := joinPath_inj (of_decide_eq_true hpath)
      rw [if_pos (List.mem_of_find?_eq_some hfind)]

/-- The sources that are there are the files that are. -/
theorem filterMap_nameOf (world : World) (files : List Text) :
    (files.map (joinPath place.sourceDir)).filterMap (world.nameOf place) =
      files.filter fun file => file ∈ world.fileNames := by
  rw [List.filterMap_map]
  induction files with
  | nil => rfl
  | cons file files ih =>
      by_cases hfile : file ∈ world.fileNames
      · rw [List.filter_cons_of_pos (by simpa using hfile), ← ih, List.filterMap_cons_some]
        rw [Function.comp_apply, nameOf_joinPath, if_pos hfile]
      · rw [List.filter_cons_of_neg (by simpa using hfile), ← ih, List.filterMap_cons_none]
        rw [Function.comp_apply, nameOf_joinPath, if_neg hfile]

variable (hsource : ∃ first rest, place.sourceDir = first :: rest ∧ first ≠ 45)
include hsource

theorem realizes_logFilesNotOnTarget (files : List Text) (target : Text) :
    Realizes place (.logFilesNotOnTarget place.sourceDir files target)
      (FileOps.logFilesNotOnTargetCall place.sourceDir files target) := by
  cases files with
  | nil =>
      intro system _
      refine ⟨.rsync 5 [], ?_⟩
      show (if _ then _ else _) = _
      rw [if_pos fun _ haccepts => absurd haccepts (by decide)]
      rfl
  | cons file files =>
      refine realizes_doRsyncLoop (.logFilesNotOnTarget place.sourceDir (file :: files) target)
        (fun output => FileOps.logFilesNotOnTarget (file :: files) output.1 output.2) ?_ (0, [])
        rsyncNumRetries
      intro system _ rsyncOutput arrived reply after hprocess
      obtain ⟨code, output⟩ := rsyncOutput
      refine ⟨.rsync code output, ?_⟩
      rw [rsync.eq_def, List.map_cons,
        parseRsync_rsyncDryRun _ (isOption_joinPath hsource file)] at hprocess
      dsimp only at hprocess
      show (if _ then _ else _) = _
      by_cases hother : target ≠ place.rsyncTarget
      · rw [if_pos hother] at hprocess
        obtain ⟨_, rfl⟩ := answer_parts hprocess
        rw [if_pos fun heq => absurd heq hother]
      · rw [if_neg hother, if_pos rfl] at hprocess
        obtain ⟨hprints, hparts⟩ := Option.ite_none_right_eq_some.1 hprocess
        obtain ⟨_, rfl⟩ := answer_parts hparts
        rw [if_pos fun _ haccepts => ?_]
        have hperm := hprints haccepts
        rw [← List.map_cons, filterMap_nameOf, List.filter_filter] at hperm
        simpa [Bool.and_comm] using hperm

theorem realizes_shipFile (name target : Text) :
    Realizes place (.shipFile (joinPath place.sourceDir name) target)
      (FileOps.shipFileCall (joinPath place.sourceDir name) target) := by
  refine realizes_doRsyncLoop (.shipFile (joinPath place.sourceDir name) target)
    (fun output => decide (output.1 = 0)) ?_ (0, []) rsyncNumRetries
  intro system _ rsyncOutput arrived reply after hprocess
  obtain ⟨code, output⟩ := rsyncOutput
  refine ⟨.transfer code arrived, ?_⟩
  rw [rsync.eq_def, parseRsync_rsyncWetRun (isOption_joinPath hsource name)] at hprocess
  dsimp only at hprocess
  show (if _ then _ else _) = _
  by_cases hother : target ≠ place.rsyncTarget
  · rw [if_pos hother] at hprocess ⊢
    obtain ⟨_, rfl⟩ := answer_parts hprocess
    rfl
  · rw [if_neg hother] at hprocess ⊢
    rw [if_neg (by simp)] at hprocess
    cases arrived with
    | none =>
        obtain ⟨hcode, hparts⟩ := Option.ite_none_left_eq_some.1 hprocess
        obtain ⟨_, rfl⟩ := answer_parts hparts
        simp [hcode]
    | some length =>
        obtain ⟨_, hparts⟩ := Option.ite_none_left_eq_some.1 hprocess
        obtain ⟨found, hfound, hname⟩ := Option.map_eq_some_iff.1 hparts
        obtain ⟨_, rfl⟩ := Prod.mk.inj hname
        exact Option.map_eq_some_iff.2 ⟨found, hfound, rfl⟩

omit hsource in
theorem realizes_waitForNewFile (directory : Text) (sleepSeconds : Int) :
    Realizes place (.waitForNewFileInDirectory directory sleepSeconds)
      (FileOps.waitForNewFileCall directory sleepSeconds) := by
  intro system _ outcome reply after hanswer
  cases outcome <;> simp only [systemAnswer, reduceCtorEq] at hanswer
  case exits result arrived =>
    have hother : text "inotifywait" ≠ rsyncExecutableName := by decide
    obtain ⟨rfl, rfl⟩ := answer_parts ((if_neg hother).symm.trans hanswer)
    cases reply with
    | some result => exact .inr ⟨decide (result.1 = 0), .wakes _, rfl, rfl⟩
    | none =>
        -- There is no inotifywait: the agent sleeps instead.
        refine .inl ⟨rfl, fun later _ outcome reply after hanswer => ?_⟩
        cases outcome <;> simp only [systemAnswer, reduceCtorEq] at hanswer
        case ok =>
          obtain ⟨_, rfl⟩ := answer_parts hanswer
          exact .inr ⟨true, .wakes true, rfl, rfl⟩

omit hsource in
theorem realizes_sendMetric (monitorPort : Int) (report : Report) :
    Realizes place (.sendMetric report) (sendMetricCall monitorPort report) := by
  by_cases hport : 0 < monitorPort
  · rw [sendMetricCall_of_pos hport]
    intro system _ outcome reply after hanswer
    cases outcome <;> simp only [systemAnswer, reduceCtorEq] at hanswer
    case ok =>
      obtain ⟨_, rfl⟩ := answer_parts hanswer
      exact .inr ⟨(), .ok, rfl, rfl⟩
  · rw [sendMetricCall_of_not_pos hport]
    exact fun system _ => ⟨.ok, rfl⟩

variable (place) in
/-- The requests of an agent that reads the source directory. -/
abbrev discipline : Discipline signature :=
  requests (· = place.sourceDir)

/-- What the objects of the agent do realizes what a round asks of them. -/
theorem realizes_perform (monitorPort : Int) (hmay : (discipline place).may command) :
    Realizes place command (perform monitorPort command) := by
  cases command with
  | listLogDirectory directory =>
      obtain rfl : directory = place.sourceDir := hmay
      exact realizes_listLogDirectory
  | logFilesNotOnTarget directory files target =>
      obtain rfl : directory = place.sourceDir := hmay
      exact realizes_logFilesNotOnTarget hsource files target
  | shipFile path target =>
      obtain ⟨directory, name, rfl, rfl⟩ : ∃ directory name, directory = place.sourceDir ∧
        path = joinPath directory name := hmay
      exact realizes_shipFile hsource name target
  | waitForNewFileInDirectory directory sleepSeconds =>
      exact realizes_waitForNewFile directory sleepSeconds
  | sendMetric report => exact realizes_sendMetric monitorPort report
  | pickChannel =>
      intro system _ outcome reply after hanswer
      cases outcome <;> simp only [systemAnswer, reduceCtorEq] at hanswer
      case reads now =>
        obtain ⟨rfl, rfl⟩ := answer_parts hanswer
        exact .inr ⟨_, .reads now, rfl, rfl⟩
  | heartbeat =>
      intro system _ outcome reply after hanswer
      cases outcome <;> simp only [systemAnswer, reduceCtorEq] at hanswer
      case reads now =>
        obtain ⟨rfl, rfl⟩ := answer_parts hanswer
        exact .inr ⟨_, .reads now, rfl, rfl⟩
  | fileExists path =>
      intro system _ outcome reply after hanswer
      cases outcome <;> simp only [systemAnswer, reduceCtorEq] at hanswer
      case ok =>
        obtain ⟨rfl, rfl⟩ := answer_parts hanswer
        exact .inr ⟨_, .ok, rfl, rfl⟩
  | rand =>
      intro system _ outcome reply after hanswer
      cases outcome <;> simp only [systemAnswer, reduceCtorEq] at hanswer
      case random value =>
        obtain ⟨rfl, rfl⟩ := answer_parts hanswer
        exact .inr ⟨_, .random reply, rfl, rfl⟩
  | sleep seconds =>
      intro system _ outcome reply after hanswer
      cases outcome <;> simp only [systemAnswer, reduceCtorEq] at hanswer
      case ok =>
        obtain ⟨_, rfl⟩ := answer_parts hanswer
        exact .inr ⟨(), .ok, rfl, rfl⟩

end Realizes

section Discipline

variable {world world' : World}

/-- Whatever is answered, the agent goes on to read the source directory. -/
theorem reads_answer {command : Command} {outcome : Outcome} {reply : command.Reply}
    (hanswer : answer place command outcome world = some (reply, world')) (h : Reads place world) :
    (discipline place).permits command reply ∧ Reads place world' := by
  by_cases hharmless : Harmless place command
  · have hreads : Reads place world' := by
      rcases answer_harmless hharmless hanswer with rfl | ⟨selector, hselector, rfl⟩
      · exact h
      · exact hselector h
    refine ⟨?_, hreads⟩
    cases command
    case pickChannel =>
      cases outcome <;> simp only [answer, reduceCtorEq] at hanswer
      case reads now =>
        obtain ⟨rfl, rfl⟩ := answer_parts hanswer
        exact hreads.current
    all_goals trivial
  · cases command <;> first | exact absurd trivial hharmless | skip
    case shipFile path target =>
      refine ⟨trivial, ?_⟩
      cases outcome <;> simp only [answer, reduceCtorEq] at hanswer
      case transfer code arrived =>
        rw [if_neg (by simpa [Harmless] using hharmless)] at hanswer
        cases arrived with
        | none =>
            obtain ⟨_, hparts⟩ := Option.ite_none_left_eq_some.1 hanswer
            obtain ⟨_, rfl⟩ := answer_parts hparts
            exact h
        | some length =>
            obtain ⟨name, _, hname⟩ := Option.map_eq_some_iff.1 hanswer
            obtain ⟨_, rfl⟩ := Prod.mk.inj hname
            exact h

/-- Events leave the selector alone. -/
theorem reads_occurs {event : Event} (h : occurs place event world = some world')
    (hreads : Reads place world) : Reads place world' := by
  cases event <;> simp only [occurs] at h
  case create name =>
    obtain ⟨_, hworld⟩ := Option.ite_none_right_eq_some.1 h
    obtain rfl := Option.some.inj hworld
    exact hreads
  case rotate =>
    obtain rfl := Option.some.inj h
    exact hreads
  case touch names =>
    obtain ⟨_, hworld⟩ := Option.ite_none_left_eq_some.1 h
    obtain rfl := Option.some.inj hworld
    exact hreads
  case cleanup jvm limit minMB =>
    obtain rfl := Option.some.inj h
    exact hreads
  case answerCleanup index outcome =>
    split at h
    · obtain ⟨_, _, rfl⟩ := Option.map_eq_some_iff.1 h
      exact hreads
    · simp at h

end Discipline

section Deployed

variable {barnConf : Params.BarnConf} {reports : List Report} {phase : Unit}

variable (place) in
/-- A deployed agent amid these events. -/
abbrev deployedContract : Contract (systemMachine place) Unit :=
  (contract place).below System.world fun system after =>
    (contract place).rely system.world after.world

theorem stable_reads : (contract place).Stable (Reads place) := by
  intro world world' h hrely
  obtain ⟨event, hoccurs⟩ := hrely
  exact reads_occurs hoccurs h

theorem stable_system :
    (deployedContract place).Stable fun (system : System) => system.world.Sound place :=
  fun system after h hrely => stable_sound tolerable_occurs system.world after.world h hrely

/-- Sending a metric does not get in the way. -/
theorem follows_sendMetricCall (monitorPort : Int) (report : Report)
    (h : system.world.Sound place) :
    Follows (deployedContract place) (fun _ _ (system : System) => system.world.Sound place)
      (sendMetricCall monitorPort report) phase system := by
  by_cases hport : 0 < monitorPort
  · rw [sendMetricCall_of_pos hport]
    refine Follows.request stable_system h ?_
    intro system h outcome reply after _ hanswer
    cases outcome <;> simp only [systemAnswer, reduceCtorEq] at hanswer
    case ok =>
      obtain ⟨_, rfl⟩ := answer_parts hanswer
      exact ⟨phase, .single .refl, Follows.done stable_system h⟩
  · rw [sendMetricCall_of_not_pos hport]
    exact Follows.done stable_system h

theorem follows_sendMetricsCall (monitorPort : Int) (reports : List Report)
    (h : system.world.Sound place) :
    Follows (deployedContract place) (fun _ _ (system : System) => system.world.Sound place)
      (sendMetricsCall monitorPort reports) phase system := by
  induction reports generalizing system with
  | nil => exact Follows.done stable_system h
  | cons report reports ih =>
      exact (follows_sendMetricCall monitorPort report h).bind fun _ _ _ h => ih h

/-- A pass of the main loop keeps everything in order, whatever happens between its calls. -/
theorem follows_barnAgentPass
    (hsource : ∃ first rest, place.sourceDir = first :: rest ∧ first ≠ 45)
    (h : system.world.Sound place) :
    Follows (deployedContract place) (fun _ _ (system : System) => system.world.Sound place)
      (barnAgentPass barnConf) phase system := by
  have hround : Follows (contract place) (fun _ _ world => world.Sound place)
      (dispatchNewLogs ⟨barnConf.sleepSeconds⟩) phase system.world :=
    follows_dispatchNewLogs tolerable_occurs ⟨barnConf.sleepSeconds⟩ h
  have himplemented : Follows (deployedContract place)
      (fun _ _ (system : System) => system.world.Sound place)
      ((dispatchNewLogs ⟨barnConf.sleepSeconds⟩).implement (perform barnConf.monitorPort))
      phase system :=
    Follows.implement (fun _ _ hrely => .single hrely) stable_reads (fun _ _ _ => trivial)
      (fun command hmay => realizes_perform hsource barnConf.monitorPort hmay)
      (fun _ _ _ _ _ _ hreads hanswer => reads_answer hanswer hreads)
      (obeys_dispatchNewLogs ⟨barnConf.sleepSeconds⟩) h.selector hround
  refine himplemented.bind fun _ phase system h => ?_
  -- The metrics of the channel selector follow.
  refine Follows.request stable_system h ?_
  intro system h outcome reports after _ hanswer
  cases outcome <;> simp only [systemAnswer, reduceCtorEq] at hanswer
  case reads now =>
    obtain ⟨rfl, rfl⟩ := answer_parts hanswer
    exact ⟨phase, .refl, follows_sendMetricsCall barnConf.monitorPort _ h⟩

/-- Everything is in order after every interleaving of the calls of an agent with svlogd and
cleanups. -/
theorem sound_of_deployed {labels : List (deployed place barnConf).Label}
    {program : Procedure Unit} (hinitial : Initial place system.world)
    (hsource : ∃ first rest, place.sourceDir = first :: rest ∧ first ≠ 45)
    (hrun : (deployed place barnConf).run labels (.done (), system) = some (program, after)) :
    after.world.Sound place := by
  have hadmits : (deployed place barnConf).Admits (fun _ _ => True) labels (.done (), system) :=
    Rounds.admits_of_forall (fun _ _ => trivial) _
  have hevent : ∀ event (program : Procedure Unit) system after, True →
      (deployed place barnConf).occurs event system = some after →
      (deployedContract place).rely system after ∧ (deployedContract place).rely system after := by
    intro event _ system after _ hoccurs
    obtain ⟨world, hworld, rfl⟩ := Option.map_eq_some_iff.1 hoccurs
    exact ⟨⟨event, hworld⟩, ⟨event, hworld⟩⟩
  have hbegin : ∀ (value : Unit) phase (system : System), True → system.world.Sound place →
      ∃ phase', (phase', (deployed place barnConf).begin system) = (phase, system) ∧
        Follows (deployedContract place) (fun _ _ (system : System) => system.world.Sound place)
          (deployed place barnConf).body phase' ((deployed place barnConf).begin system) :=
    fun _ _ _ _ h => ⟨(), rfl, follows_barnAgentPass hsource h⟩
  have hdone : Follows (deployedContract place)
      (fun _ _ (system : System) => system.world.Sound place) (.done ()) () system :=
    Follows.done stable_system hinitial.sound
  obtain ⟨phase, hsteps, _⟩ :=
    Rounds.run_follows hevent (fun _ _ _ _ _ => trivial) hbegin hadmits hdone hrun
  refine Rounds.SystemStep.invariant (motive := fun state : Unit × System =>
    state.2.world.Sound place) ?_ ?_ ?_ hsteps hinitial.sound
  · intro _ system after hhappens h
    exact stable_system system after h hhappens
  · intro state state' hrestart h
    obtain rfl := hrestart
    exact h
  · intro state state' hstep h
    -- One call may be any number of steps of the protocol.
    suffices hall : ∀ first last : Unit × World, ReflTransGen (contract place).step first last →
        first.2.Sound place → last.2.Sound place from hall _ _ hstep h
    intro first last hchain hfirst
    induction hchain with
    | refl => exact hfirst
    | tail _ hlast ih => exact hlast.sound ih

/-- Files reach the target in strictly increasing order and none is left out, also when rsync
processes are started again and fail half way, and when metrics are sent in between. -/
theorem deployed_inOrder {labels : List (deployed place barnConf).Label}
    {program : Procedure Unit} (hinitial : Initial place system.world)
    (hsource : ∃ first rest, place.sourceDir = first :: rest ∧ first ≠ 45)
    (hrun : (deployed place barnConf).run labels (.done (), system) = some (program, after)) :
    after.world.feed.delivered.Pairwise (· < ·) ∧
      ∀ newest ∈ after.world.feed.delivered, ∀ file ∈ after.world.feed.created, file < newest →
        file ∈ after.world.feed.delivered ∨ file ∉ after.world.feed.kept := by
  have h := (sound_of_deployed hinitial hsource hrun).feed
  exact ⟨h.delivered_sorted, h.noGap⟩

end Deployed

section Sample

/-- The agent with its world before svlogd has written anything. -/
def System.sample : System where
  world := .sample
  datagrams := []

/-- The first file is created and listed, and the dry run prints it. -/
def deployedQuery : List (deployed Place.sample sampleConf).Label :=
  [.event (.create sampleName), .start, .answer (.reads 0),
    .answer (.entries (some [text "current", sampleName, text "lock"])),
    .answer (.exits (some (0, text "sending incremental file list\n" ++ sampleName)) none)]

/-- The server does not accept the first connection; the file arrives over the second one. -/
def deployedShip : List (deployed Place.sample sampleConf).Label :=
  [.answer (.exits (some (5, [])) none), .answer (.exits (some (0, [])) (some 1)), .event .rotate]

/-- The file has arrived. -/
theorem deployed_inOrder_sample : ∃ program after,
    (deployed Place.sample sampleConf).run (deployedQuery ++ deployedShip)
      (.done (), System.sample) = some (program, after) ∧
    after.world.feed.delivered = [sampleName] ∧ after.world.feed.delivered.Pairwise (· < ·) := by
  have hquery : ∃ rest rest', (deployed Place.sample sampleConf).run deployedQuery
      (.done (), System.sample) =
        some (Program.bind (Program.implement (perform 0)
          ((shipCandidates sampleChannel [sampleName]).bind rest)) rest',
          { world := { World.sample with feed := ⟨[sampleName], [sampleName], []⟩ }
            datagrams := [] }) :=
    ⟨_, _, rfl⟩
  obtain ⟨rest, rest', hquery⟩ := hquery
  have hship : ∃ next, shipCandidates sampleChannel [sampleName] =
      @Program.request signature _ (.shipFile (joinPath Place.sample.sourceDir sampleName)
        Place.sample.rsyncTarget) next := by
    rw [shipCandidates, List.mergeSort_singleton]
    exact ⟨_, rfl⟩
  obtain ⟨next, hship⟩ := hship
  have hrun : (deployed Place.sample sampleConf).run (deployedQuery ++ deployedShip)
      (.done (), System.sample) =
        some (Program.bind (Program.implement (perform 0) ((next true).bind rest)) rest',
          { world := { World.sample with
              feed := ⟨[sampleName], [], [sampleName]⟩
              collector := World.sample.collector.receive
                ⟨Place.sample.targetDir, sampleName, false, 1⟩ }
            datagrams := [] }) := by
    rw [Rounds.run_append, hquery, Option.bind_some, hship]
    rfl
  have hsource : ∃ first rest, Place.sample.sourceDir = first :: rest ∧ first ≠ 45 :=
    ⟨_, _, rfl, by decide⟩
  exact ⟨_, _, hrun, rfl, (deployed_inOrder initial_sample hsource hrun).1⟩

end Sample

end Barn.Agent.Delivery
