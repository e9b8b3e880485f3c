import Barn.Agent.Dispatch
import Barn.Interaction.Pool
import Barn.Platform.Words

/-!
# The requests of a round

What a round of the agent asks for, whatever the replies: it reads the source directory of the
channel that it was given, ships files from there, and reports values of type `int` under the keys
of `metrics.h` (`obeys_dispatchNewLogs`).
-/

namespace Barn.Agent

open Interaction

/-- The keys of all metrics. -/
def metricKeys : List Text :=
  timeSinceSuccess :: defaultZeroMetrics

/-- A report of an `int` under one of these keys. -/
structure Report.Proper (report : Report) : Prop where
  key : report.1 ∈ metricKeys
  value : toInt report.2 = report.2

/-- Requests that read such directories only, and proper reports. -/
def requests (reads : Text → Prop) : Discipline signature where
  may
    | .listLogDirectory directory => reads directory
    | .logFilesNotOnTarget directory _ _ => reads directory
    | .shipFile path _ => ∃ directory name, reads directory ∧ path = joinPath directory name
    | .sendMetric report => report.Proper
    | _ => True
  permits
    | .pickChannel, channel => reads channel.sourceDir
    | _, _ => True

variable {reads : Text → Prop} {channel : AgentChannel} {barnConf : BarnConf}

/-- One pass of the loop keeps the counter of `count_missing` an `int`. -/
theorem toInt_countMissingLoop (small big : List Text) {missing : Int}
    (h : toInt missing = missing) :
    toInt (countMissingLoop small big missing) = countMissingLoop small big missing := by
  induction small, big, missing using countMissingLoop.induct with
  | case1 big missing => rwa [countMissingLoop]
  | case2 sm small missing ih =>
      rw [countMissingLoop]
      exact ih (toInt_toInt _)
  | case3 sm small bg big missing hless ih =>
      rw [countMissingLoop, if_pos hless]
      exact ih (toInt_toInt _)
  | case4 small sm big missing hless ih =>
      rw [countMissingLoop, if_neg hless, if_pos rfl]
      exact ih h
  | case5 sm small bg big missing hless hne ih =>
      rw [countMissingLoop, if_neg hless, if_neg hne]
      exact ih h

/-- Requests that a round may make whatever the replies. -/
def Free : Command → Prop
  | .heartbeat | .fileExists _ | .waitForNewFileInDirectory _ _ | .rand | .sleep _ => True
  | _ => False

/-- A program that makes only such requests obeys. -/
theorem obeys_of_free {α : Type} {program : Routine α} (h : program.Asks Free) :
    program.Obeys (requests reads) fun _ => True := by
  refine Program.Asks.obeys (h.mono fun command hcommand => ?_)
  cases command <;> trivial

theorem free_sleepIt (barnConf : BarnConf) : (sleepIt barnConf).Asks Free := by
  rw [sleepIt]
  split
  · exact ⟨trivial, fun _ => ⟨trivial, fun _ => trivial⟩⟩
  · exact trivial

/-- A report on the way is proper if it is under one of the keys. -/
theorem obeys_sendMetric {α : Type} {key : Text} {value : Int} {rest : Unit → Routine α}
    {post : α → Prop} (hkey : key ∈ metricKeys) (hvalue : toInt value = value)
    (h : (rest ()).Obeys (requests reads) post) :
    ((sendMetric key value).bind rest).Obeys (requests reads) post :=
  ⟨⟨hkey, hvalue⟩, fun _ _ => h⟩

/-- The query reads the directory of its channel. -/
theorem obeys_queryCandidates (hchannel : reads channel.sourceDir) :
    (queryCandidates channel).Obeys (requests reads) fun _ => True := by
  refine ⟨hchannel, fun existingFiles _ => ⟨hchannel, fun filesNotOnServer _ => ?_⟩⟩
  cases filesNotOnServer with
  | error err =>
      exact obeys_sendMetric (by simp [metricKeys, defaultZeroMetrics]) rfl trivial
  | ok filesNotOnServer =>
      dsimp only
      split
      · trivial
      · refine obeys_sendMetric (by simp [metricKeys, defaultZeroMetrics]) (toInt_toInt _) ?_
        split
        · exact obeys_sendMetric (by simp [metricKeys, defaultZeroMetrics]) rfl trivial
        · trivial

/-- Both counters are of type `int`. -/
structure Counters.AreInts (counters : Counters) : Prop where
  numShipped : toInt counters.numShipped = counters.numShipped
  numLostDuringShip : toInt counters.numLostDuringShip = counters.numLostDuringShip

/-- The loop ships files of the directory, and its counters remain of type `int`. -/
theorem obeys_shipEach (hchannel : reads channel.sourceDir) {counters : Counters}
    (hcounters : counters.AreInts) (candidates : List Text) :
    (shipEach channel counters candidates).Obeys (requests reads) Counters.AreInts := by
  induction candidates generalizing counters with
  | nil => exact hcounters
  | cons el rest ih =>
      refine ⟨⟨channel.sourceDir, el, hchannel, rfl⟩, fun shipped _ => ?_⟩
      cases shipped with
      | true => exact ih ⟨toInt_toInt _, hcounters.numLostDuringShip⟩
      | false =>
          refine ⟨trivial, fun present _ => ?_⟩
          cases present with
          | true => exact hcounters
          | false => exact ih ⟨hcounters.numShipped, toInt_toInt _⟩

/-- What comes after the loop reports the counters. -/
theorem obeys_shipCandidates (hchannel : reads channel.sourceDir) (candidates : List Text) :
    (shipCandidates channel candidates).Obeys (requests reads) fun _ => True := by
  rw [shipCandidates]
  generalize toInt candidates.length = candidatesSize
  by_cases hnone : candidatesSize = 0
  · rw [if_pos hnone]
    trivial
  · rw [if_neg hnone]
    have hloop := obeys_shipEach hchannel (⟨rfl, rfl⟩ : Counters.AreInts ⟨0, 0⟩)
      candidates.mergeSort
    refine hloop.bind fun counters hcounters => ?_
    refine obeys_sendMetric (by simp [metricKeys, defaultZeroMetrics]) hcounters.numShipped ?_
    refine obeys_sendMetric (by simp [metricKeys, defaultZeroMetrics])
      hcounters.numLostDuringShip ?_
    refine ⟨hchannel, fun currentLogs _ => ?_⟩
    have hreturn : (if counters.numShipped = 0 then
        pure (.error (text "Failed to ship any logs")) else pure (.ok counters.numShipped) :
        Routine (Validation Int)).Obeys (requests reads) fun _ => True := by
      split <;> exact trivial
    have hrotated : ∀ number (rest : Unit → Routine (Validation Int)), toInt number = number →
        (∀ value, (rest value).Obeys (requests reads) fun _ => True) →
        (if number ≠ 0 then sendMetric rotatedDuringShip number >>= rest
          else rest ()).Obeys (requests reads) fun _ => True := by
      intro number rest hnumber hrest
      split
      · exact obeys_sendMetric (by simp [metricKeys, defaultZeroMetrics]) hnumber (hrest ())
      · exact hrest ()
    exact hrotated _ _ (toInt_countMissingLoop _ _ rfl) fun _ => hreturn

attribute [local irreducible] shipCandidates

/-- A round obeys. -/
theorem obeys_dispatchNewLogs (barnConf : BarnConf) :
    (dispatchNewLogs barnConf).Obeys (requests reads) fun _ => True := by
  refine ⟨trivial, fun channel hchannel => ?_⟩
  refine (obeys_queryCandidates hchannel).bind fun logsToShip _ => ?_
  cases logsToShip with
  | error err => exact obeys_of_free (free_sleepIt barnConf)
  | ok candidates =>
      dsimp only
      rw [Program.bind_eq]
      refine (obeys_shipCandidates hchannel candidates).bind fun numShipped _ => ?_
      cases numShipped with
      | error err => exact obeys_of_free (free_sleepIt barnConf)
      | ok numShipped =>
          refine obeys_of_free ?_
          simp only
          split
          · exact (free_sleepIt barnConf).bind fun _ => ⟨trivial, fun _ => trivial⟩
          · exact ⟨trivial, fun _ => ⟨trivial, fun _ => trivial⟩⟩

end Barn.Agent
