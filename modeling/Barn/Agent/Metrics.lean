import Barn.Text.Basic

/-!
# Metric names

The keys of `metrics.h` and the list of metrics the monitor publishes as zero when nothing was
reported for them.
-/

namespace Barn.Agent

/-- `FilesToShip` -/
def filesToShip : Text := text "barn_files_to_ship"

/-- `FailedToGetSyncList` -/
def failedToGetSyncList : Text := text "barn_failed_to_get_sync_list"

/-- `FullDirectoryShip` -/
def fullDirectoryShip : Text := text "barn_shipping_entire_log_directory"

/-- `RotatedDuringShip` -/
def rotatedDuringShip : Text := text "barn_rotated_during_ship"

/-- `LostDuringShip` -/
def lostDuringShip : Text := text "barn_lost_during_ship"

/-- `NumFilesShipped` -/
def numFilesShipped : Text := text "barn_files_shipped"

/-- `TimeSinceSuccess` -/
def timeSinceSuccess : Text := text "time_since_success"

/-- `FailedOverAgents` -/
def failedOverAgents : Text := text "failed_over_agents"

/-- `DefaultZeroMetrics`, which lists `FullDirectoryShip` twice. -/
def defaultZeroMetrics : List Text :=
  [filesToShip, failedToGetSyncList, fullDirectoryShip, rotatedDuringShip, numFilesShipped,
    lostDuringShip, fullDirectoryShip, failedOverAgents]

/-- A reported value under its key, as `send_metric` takes it. -/
abbrev Report := Text × Int

end Barn.Agent
