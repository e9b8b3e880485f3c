import Barn.Agent.Helpers
import Barn.Agent.Metrics
import Barn.Interaction.Program

/-!
# A dispatch round of the agent

`dispatch_new_logs` and what it calls in `barn-agent.cpp`, as a program that asks `FileOps`, the
channel selector, the metrics and the clock. What they reply is up to the surroundings.
-/

namespace Barn.Agent

open Interaction

/-- `AgentChannel` -/
structure AgentChannel where
  sourceDir : Text
  rsyncTarget : Text
  deriving DecidableEq

/-- What a round reads of `BarnConf`. -/
structure BarnConf where
  sleepSeconds : Int

/-- `BarnError`, with its message. -/
abbrev BarnError := Text

/-- `Validation<T>` -/
abbrev Validation (T : Type) := Except BarnError T

/-- What a round asks of its surroundings. -/
inductive Command where
  | pickChannel
  | heartbeat
  | listLogDirectory (directoryPath : Text)
  | logFilesNotOnTarget (logDirectory : Text) (files : List Text) (rsyncTarget : Text)
  | shipFile (fileName rsyncTarget : Text)
  | fileExists (path : Text)
  | waitForNewFileInDirectory (directory : Text) (sleepSeconds : Int)
  | sendMetric (report : Report)
  | rand
  | sleep (seconds : Int)
  deriving DecidableEq

/-- The type of the reply to a request. -/
def Command.Reply : Command → Type
  | .pickChannel => AgentChannel
  | .heartbeat => Unit
  | .listLogDirectory _ => List Text
  | .logFilesNotOnTarget _ _ _ => Validation (List Text)
  | .shipFile _ _ => Bool
  | .fileExists _ => Bool
  | .waitForNewFileInDirectory _ _ => Bool
  | .sendMetric _ => Unit
  | .rand => Int
  | .sleep _ => Unit

/-- The requests of a round and their replies. -/
abbrev signature : Signature where
  Request := Command
  Reply := Command.Reply

/-- A part of a round. -/
abbrev Routine (α : Type) := Program signature α

/-- Make one request. -/
def request (command : Command) : Routine command.Reply :=
  Program.request command Program.done

/-- `channel_selector.pick_channel()` -/
def pickChannel : Routine AgentChannel :=
  request .pickChannel

/-- `channel_selector.heartbeat()` -/
def heartbeat : Routine Unit :=
  request .heartbeat

/-- `fileops.list_log_directory` -/
def listLogDirectory (directoryPath : Text) : Routine (List Text) :=
  request (.listLogDirectory directoryPath)

/-- `fileops.log_files_not_on_target` -/
def logFilesNotOnTarget (logDirectory : Text) (files : List Text) (rsyncTarget : Text) :
    Routine (Validation (List Text)) :=
  request (.logFilesNotOnTarget logDirectory files rsyncTarget)

/-- `fileops.ship_file` -/
def shipFile (fileName rsyncTarget : Text) : Routine Bool :=
  request (.shipFile fileName rsyncTarget)

/-- `fileops.file_exists` -/
def fileExists (path : Text) : Routine Bool :=
  request (.fileExists path)

/-- `fileops.wait_for_new_file_in_directory` -/
def waitForNewFileInDirectory (directory : Text) (sleepSeconds : Int) : Routine Bool :=
  request (.waitForNewFileInDirectory directory sleepSeconds)

/-- `metrics.send_metric` -/
def sendMetric (key : Text) (value : Int) : Routine Unit :=
  request (.sendMetric (key, value))

/-- `sleep_it` -/
def sleepIt (barnConf : BarnConf) : Routine Unit := do
  if 0 < barnConf.sleepSeconds then
    let random ← (request .rand : Routine Int)
    request (.sleep (toInt (barnConf.sleepSeconds.tdiv 2 + random.tmod barnConf.sleepSeconds)))

/-- `query_candidates` -/
def queryCandidates (channel : AgentChannel) : Routine (Validation (List Text)) := do
  let existingFiles ← listLogDirectory channel.sourceDir
  let filesNotOnServer ← logFilesNotOnTarget channel.sourceDir existingFiles channel.rsyncTarget
  match filesNotOnServer with
  | .error err => do
      sendMetric failedToGetSyncList 1
      return .error err
  | .ok filesNotOnServer =>
      if existingFiles.length = 0 then
        return .ok []
      else do
        let logsToShip := tailIntersection existingFiles filesNotOnServer
        sendMetric filesToShip (toInt logsToShip.length)
        if logsToShip.length = existingFiles.length then
          sendMetric fullDirectoryShip 1
        return .ok logsToShip

/-- The two counters of `ship_candidates`. -/
structure Counters where
  numShipped : Int
  numLostDuringShip : Int
  deriving DecidableEq

/-- The loop of `ship_candidates` over the rest of the sorted candidates. -/
def shipEach (channel : AgentChannel) (counters : Counters) : List Text → Routine Counters
  | [] => return counters
  | el :: rest => do
      let filePath := joinPath channel.sourceDir el
      let shipped ← shipFile filePath channel.rsyncTarget
      if shipped then
        shipEach channel { counters with numShipped := toInt (counters.numShipped + 1) } rest
      else do
        let present ← fileExists filePath
        if present then
          -- The file is still there: the loop breaks, and the next round retries from it.
          return counters
        else
          shipEach channel
            { counters with numLostDuringShip := toInt (counters.numLostDuringShip + 1) } rest

/-- `ship_candidates` -/
def shipCandidates (channel : AgentChannel) (candidates : List Text) :
    Routine (Validation Int) := do
  let candidatesSize := toInt candidates.length
  if candidatesSize = 0 then
    return .ok 0
  else do
    let candidates := candidates.mergeSort
    let counters ← shipEach channel ⟨0, 0⟩ candidates
    sendMetric numFilesShipped counters.numShipped
    sendMetric lostDuringShip counters.numLostDuringShip
    let currentLogs ← listLogDirectory channel.sourceDir
    let numRotatedDuringShip := countMissing candidates currentLogs
    if numRotatedDuringShip ≠ 0 then
      sendMetric rotatedDuringShip numRotatedDuringShip
    if counters.numShipped = 0 then
      return .error (text "Failed to ship any logs")
    else
      return .ok counters.numShipped

/-- `dispatch_new_logs` -/
def dispatchNewLogs (barnConf : BarnConf) : Routine Unit := do
  let channel ← pickChannel
  let logsToShip ← queryCandidates channel
  match logsToShip with
  | .error _ => sleepIt barnConf
  | .ok logsToShip =>
      let numShipped ← shipCandidates channel logsToShip
      match numShipped with
      | .error _ => sleepIt barnConf
      | .ok numShipped => do
          if 0 < numShipped then
            sleepIt barnConf
          else do
            let _ ← waitForNewFileInDirectory channel.sourceDir barnConf.sleepSeconds
          heartbeat

end Barn.Agent
