import Barn.Agent.LocalReport
import Barn.Agent.Target
import Barn.Interaction.Implementation

/-!
# The agent on its system

What `FileOps`, `Metrics` and the channel selector do for a round of the agent, down to the system:
the processes that `run_command` starts, the entries of a directory, datagrams. `doRsync` tries a
command again when the server did not accept the connection.
-/

namespace Barn.Agent

open Interaction

/-- What the agent asks of the system, and the methods of its channel selector. -/
inductive SystemCall where
  | pickChannel
  | heartbeat
  | selectorMetrics
  | directoryEntries (directoryPath : Text)
  | fileExists (path : Text)
  | runCommand (cmd : Text) (args : List Text)
  | sendDatagram (port : Int) (message : Text)
  | rand
  | sleep (seconds : Int)
  | terminate
  deriving DecidableEq

/-- The type of the reply. A directory may not be there to list, and a command may not be found in
the path. Nothing comes back from `terminate`. -/
def SystemCall.Reply : SystemCall → Type
  | .pickChannel => AgentChannel
  | .heartbeat => Unit
  | .selectorMetrics => List Report
  | .directoryEntries _ => Option (List Text)
  | .fileExists _ => Bool
  | .runCommand _ _ => Option (Int × Text)
  | .sendDatagram _ _ => Unit
  | .rand => Int
  | .sleep _ => Unit
  | .terminate => Empty

/-- The calls of the agent and their replies. -/
abbrev systemSignature : Signature where
  Request := SystemCall
  Reply := SystemCall.Reply

/-- A part of the agent. -/
abbrev Procedure (α : Type) := Program systemSignature α

/-- Make one call. -/
def call (systemCall : SystemCall) : Procedure systemCall.Reply :=
  Program.request systemCall Program.done

/-- An exception that nobody catches. -/
def terminate {α : Type} : Procedure α :=
  Program.request .terminate Empty.elim

/-- `run_command` -/
def runCommand (cmd : Text) (args : List Text) : Procedure (Option (Int × Text)) :=
  call (.runCommand cmd args)

/-- `RSYNC_NUM_RETRIES` -/
def rsyncNumRetries : ℕ := 2

/-- `CLIENT_SERVER_PROTOCOL` -/
def clientServerProtocol : Int := 5

/-- `rsync_executable_name` -/
def rsyncExecutableName : Text := text "rsync"

/-- `rsync_dry_run_flag` -/
def rsyncDryRunFlag : Text := text "--dry-run"

/-- `RSYNC_FLAGS` -/
def rsyncFlags : List Text := [text "--times", text "--verbose", text "--timeout=30"]

/-- The loop of `do_rsync` with this many tries left. -/
def doRsyncLoop (args : List Text) (rsyncOutput : Int × Text) : ℕ → Procedure (Int × Text)
  | 0 => return rsyncOutput
  | tries + 1 => do
      match ← runCommand (text "rsync") args with
      | none => terminate
      | some rsyncOutput =>
          if rsyncOutput.1 ≠ clientServerProtocol then return rsyncOutput
          else doRsyncLoop args rsyncOutput tries

/-- `do_rsync` -/
def doRsync (args : List Text) : Procedure (Int × Text) :=
  doRsyncLoop args (0, []) (rsyncNumRetries + 1)

/-- The arguments of the dry run. -/
def rsyncDryRun (filePaths : List Text) (rsyncTarget : Text) : List Text :=
  [rsyncExecutableName, rsyncDryRunFlag] ++ rsyncFlags ++ filePaths ++ [rsyncTarget]

/-- The arguments of a run that ships a file. -/
def rsyncWetRun (filePath rsyncTarget : Text) : List Text :=
  [rsyncExecutableName] ++ rsyncFlags ++ [filePath] ++ [rsyncTarget]

namespace FileOps

/-- `FileOps::list_log_directory` -/
def listLogDirectoryCall (directoryPath : Text) : Procedure (List Text) := do
  match ← (call (.directoryEntries directoryPath) : Procedure (Option (List Text))) with
  | none => terminate
  | some entries => return listLogDirectory entries

/-- `FileOps::log_files_not_on_target` -/
def logFilesNotOnTargetCall (logDirectory : Text) (files : List Text) (rsyncTarget : Text) :
    Procedure (Validation (List Text)) := do
  if files.length = 0 then return .ok []
  else do
    let rsyncOutput ← doRsync (rsyncDryRun (files.map (joinPath logDirectory)) rsyncTarget)
    return logFilesNotOnTarget files rsyncOutput.1 rsyncOutput.2

/-- `FileOps::ship_file` -/
def shipFileCall (filePath rsyncTarget : Text) : Procedure Bool := do
  let rsyncOutput ← doRsync (rsyncWetRun filePath rsyncTarget)
  return decide (rsyncOutput.1 = 0)

/-- `FileOps::wait_for_new_file_in_directory` -/
def waitForNewFileCall (directory : Text) (sleepSeconds : Int) : Procedure Bool := do
  let args := [text "inotifywait", text "--exclude", text "'\\.u'", text "--exclude",
    text "'lock'", text "--exclude", text "'current'", text "--timeout", text "3600", text "-q",
    text "-e", text "moved_to", directory ++ text "/"]
  match ← runCommand (text "inotifywait") args with
  | some result => return decide (result.1 = 0)
  | none => do
      let _ ← call (.sleep sleepSeconds)
      return true

end FileOps

/-- `send_metric` of the `Metrics` that `create_metrics` makes. -/
def sendMetricCall (monitorPort : Int) (report : Report) : Procedure Unit :=
  if 0 < monitorPort then call (.sendDatagram monitorPort (metricDatagram report.1 report.2))
  else return

/-- With a port there is a datagram, and without one nothing is sent. -/
theorem sendMetricCall_of_pos {monitorPort : Int} {report : Report} (h : 0 < monitorPort) :
    sendMetricCall monitorPort report = @Program.request systemSignature _
      (.sendDatagram monitorPort (metricDatagram report.1 report.2)) .done :=
  if_pos h

theorem sendMetricCall_of_not_pos {monitorPort : Int} {report : Report} (h : ¬0 < monitorPort) :
    sendMetricCall monitorPort report = .done () :=
  if_neg h

/-- What the objects of the agent do for a round. -/
def perform (monitorPort : Int) : (command : Command) → Procedure command.Reply
  | .pickChannel => call .pickChannel
  | .heartbeat => call .heartbeat
  | .listLogDirectory directoryPath => FileOps.listLogDirectoryCall directoryPath
  | .logFilesNotOnTarget logDirectory files rsyncTarget =>
      FileOps.logFilesNotOnTargetCall logDirectory files rsyncTarget
  | .shipFile fileName rsyncTarget => FileOps.shipFileCall fileName rsyncTarget
  | .fileExists path => call (.fileExists path)
  | .waitForNewFileInDirectory directory sleepSeconds =>
      FileOps.waitForNewFileCall directory sleepSeconds
  | .sendMetric report => sendMetricCall monitorPort report
  | .rand => call .rand
  | .sleep seconds => call (.sleep seconds)

/-- Each of these metrics is sent. -/
def sendMetricsCall (monitorPort : Int) : List Report → Procedure Unit
  | [] => return
  | report :: reports => do
      sendMetricCall monitorPort report
      sendMetricsCall monitorPort reports

/-- One pass of the loop of `barn_agent_main`. -/
def barnAgentPass (barnConf : Params.BarnConf) : Procedure Unit := do
  (dispatchNewLogs ⟨barnConf.sleepSeconds⟩).implement (perform barnConf.monitorPort)
  let reports ← (call .selectorMetrics : Procedure (List Report))
  sendMetricsCall barnConf.monitorPort reports

end Barn.Agent
