import Barn.Agent.Metrics
import Barn.Data.CircularBuffer
import Barn.Platform.Words
import Mathlib.Algebra.BigOperators.Group.List.Basic
import Mathlib.Algebra.Order.Group.Int
import Mathlib.Tactic.Ring
import Std.Data.TreeMap.Lemmas

/-!
# The local monitor

The aggregation loop of `barn-agent-monitor.cpp`. Reports and timer ticks touch the shared metric
repository only under its mutex, so a run is a list of `Event`s, each of them atomic. `run_eq`
says what is published from what was received since the previous tick, and `defaults_published`
when that includes the default zero metrics: they share the repository with the reports.
-/

namespace Barn.Agent

/-- `max_metrics_per_interval` -/
def maxMetricsPerInterval : ℕ := 1000

/-- `MetricRepo` -/
abbrev MetricRepo := CircularBuffer Report maxMetricsPerInterval

/-- `addDefaultMetrics` -/
def addDefaultMetrics (metrics : MetricRepo) : MetricRepo :=
  metrics.pushAll (defaultZeroMetrics.map fun key => (key, 0))

/-- `aggregated[element.first] += element.second` -/
def addElement (aggregated : Std.TreeMap Text Int) (element : Report) : Std.TreeMap Text Int :=
  aggregated.alter element.1 fun value => some (toInt (value.getD 0 + element.2))

/-- The sum of the values under each key. -/
def aggregate (buffer : List Report) : Std.TreeMap Text Int :=
  buffer.foldl addElement ∅

/-- `timer_action`: what is reported externally, and the repository afterwards. -/
def timerAction (metrics : MetricRepo) : Std.TreeMap Text Int × MetricRepo :=
  (aggregate metrics.items, addDefaultMetrics CircularBuffer.clear)

/-- What happens to the repository: a report arrives, or the timer fires. -/
inductive Event where
  | report (newReport : Report)
  | tick

/-- What the ticks of a run report, from a given repository. -/
def run (metrics : MetricRepo) : List Event → List (Std.TreeMap Text Int)
  | [] => []
  | .report newReport :: events => run (metrics.pushBack newReport) events
  | .tick :: events => (timerAction metrics).1 :: run (timerAction metrics).2 events

/-- What the ticks of `barn_agent_local_monitor_main` report. -/
def localMonitorMain (events : List Event) : List (Std.TreeMap Text Int) :=
  run CircularBuffer.clear events

/-- For every tick, the reports received since the previous one, `pending` before the first. -/
def receivedPerTick (pending : List Report) : List Event → List (List Report)
  | [] => []
  | .report newReport :: events => receivedPerTick (pending ++ [newReport]) events
  | .tick :: events => pending :: receivedPerTick [] events

/-- The reports received between two consecutive ticks, for every tick after the first. -/
def intervals (events : List Event) : List (List Report) :=
  (receivedPerTick [] events).tail

/-- The sum of the values received for a key. -/
def received (reports : List Report) (key : Text) : Int :=
  ((reports.filter fun report => report.1 = key).map Prod.snd).sum

/-- The published map has exactly the keys received and the default ones, each with the sum of the
values received for it. -/
def Publishes (reports : List Report) (published : Std.TreeMap Text Int) : Prop :=
  ∀ key, published[key]? =
    if key ∈ reports.map Prod.fst ∨ key ∈ defaultZeroMetrics then some (received reports key)
    else none

/-- What a tick after the first one publishes when it received these reports. -/
def publishedFor (reports : List Report) : Std.TreeMap Text Int :=
  aggregate ((addDefaultMetrics CircularBuffer.clear).pushAll reports).items

/-- Runs that start right after a tick publish what each interval's reports determine. -/
theorem run_eq (pending : List Report) (events : List Event) :
    run ((addDefaultMetrics CircularBuffer.clear).pushAll pending) events =
      (receivedPerTick pending events).map publishedFor := by
  induction events generalizing pending with
  | nil => rfl
  | cons event events ih =>
      cases event with
      | report newReport =>
          rw [run, receivedPerTick, ← ih, CircularBuffer.pushAll_append]
          rfl
      | tick =>
          have hrest := ih []
          rw [CircularBuffer.pushAll_nil] at hrest
          rw [run, receivedPerTick, List.map_cons, ← hrest]
          rfl

/-- From any repository, the ticks after the first publish what their reports determine. -/
theorem run_tail (metrics : MetricRepo) (pending : List Report) (events : List Event) :
    (run metrics events).tail = ((receivedPerTick pending events).tail).map publishedFor := by
  induction events generalizing metrics pending with
  | nil => rfl
  | cons event events ih =>
      cases event with
      | report newReport => exact ih _ _
      | tick => exact run_eq [] events

/-- After its first tick the monitor publishes what each interval's reports determine. -/
theorem localMonitorMain_tail (events : List Event) :
    (localMonitorMain events).tail = (intervals events).map publishedFor :=
  run_tail CircularBuffer.clear [] events

@[simp] theorem received_nil (key : Text) : received [] key = 0 := rfl

/-- A report counts for its own key only. -/
theorem received_cons (report : Report) (reports : List Report) (key : Text) :
    received (report :: reports) key =
      (if report.1 = key then report.2 else 0) + received reports key := by
  by_cases hkey : report.1 = key <;> simp [received, hkey]

/-- Nothing is received for a key without reports. -/
theorem received_eq_zero {reports : List Report} {key : Text}
    (hnone : key ∉ reports.map Prod.fst) : received reports key = 0 := by
  induction reports with
  | nil => rfl
  | cons report reports ih =>
      rw [List.map_cons, List.mem_cons, not_or] at hnone
      rw [received_cons, if_neg (Ne.symm hnone.1), ih hnone.2, add_zero]

/-- Sums computed in 32 bits are the reduced exact sums. -/
theorem getElem?_foldl_addElement (buffer : List Report) (aggregated : Std.TreeMap Text Int)
    (key : Text) :
    (buffer.foldl addElement aggregated)[key]? =
      if key ∈ buffer.map Prod.fst then
        some (toInt (aggregated[key]?.getD 0 + received buffer key))
      else aggregated[key]? := by
  induction buffer generalizing aggregated with
  | nil => simp
  | cons element buffer ih =>
      rw [List.foldl_cons, ih, addElement, Std.TreeMap.getElem?_alter, received_cons,
        List.map_cons]
      by_cases hkey : element.1 = key
      · by_cases hlater : key ∈ buffer.map Prod.fst
        · simp [hkey, hlater, add_assoc]
        · simp [hkey, hlater, received_eq_zero hlater]
      · have hmem : key ∈ element.1 :: buffer.map Prod.fst ↔ key ∈ buffer.map Prod.fst := by
          rw [List.mem_cons, or_iff_right (Ne.symm hkey)]
        simp only [hmem, if_neg hkey, zero_add, Std.LawfulEqCmp.compare_eq_iff_eq]

/-- The aggregate of a buffer, key by key. -/
theorem getElem?_aggregate (buffer : List Report) (key : Text) :
    (aggregate buffer)[key]? =
      if key ∈ buffer.map Prod.fst then some (toInt (received buffer key)) else none := by
  simp [aggregate, getElem?_foldl_addElement]

/-- The default entries that are still in the repository when an interval's reports are. -/
def survivingDefaults (reports : List Report) : List Text :=
  defaultZeroMetrics.drop (reports.length + defaultZeroMetrics.length - maxMetricsPerInterval)

/-- As many reports as the capacity leave no default entry. -/
theorem survivingDefaults_eq_nil {reports : List Report}
    (hfull : reports.length = maxMetricsPerInterval) : survivingDefaults reports = [] := by
  rw [survivingDefaults, hfull, Nat.add_sub_cancel_left, List.drop_length]

/-- Within the capacity only default entries are overwritten. -/
theorem items_publishedFor {reports : List Report}
    (hcapacity : reports.length ≤ maxMetricsPerInterval) :
    ((addDefaultMetrics CircularBuffer.clear).pushAll reports).items =
      (survivingDefaults reports).map (fun key => (key, 0)) ++ reports := by
  rw [addDefaultMetrics, CircularBuffer.items_pushAll_pushAll_clear _ hcapacity,
    List.length_map, survivingDefaults, List.map_drop]

/-- Default entries add nothing to any sum. -/
theorem received_defaults_append (defaults : List Text) (reports : List Report) (key : Text) :
    received (defaults.map (fun key => (key, 0)) ++ reports) key = received reports key := by
  induction defaults with
  | nil => rfl
  | cons default defaults ih =>
      rw [List.map_cons, List.cons_append, received_cons, ih, ite_self, zero_add]

/-- Within the capacity every sum is exact; the keys are those received and the default ones that
were not overwritten. -/
theorem getElem?_publishedFor {reports : List Report}
    (hcapacity : reports.length ≤ maxMetricsPerInterval) (key : Text) :
    (publishedFor reports)[key]? =
      if key ∈ reports.map Prod.fst ∨ key ∈ survivingDefaults reports then
        some (toInt (received reports key))
      else none := by
  rw [publishedFor, getElem?_aggregate, items_publishedFor hcapacity, received_defaults_append]
  have hkeys : key ∈ ((survivingDefaults reports).map (fun key => (key, (0 : Int))) ++
      reports).map Prod.fst ↔ key ∈ reports.map Prod.fst ∨ key ∈ survivingDefaults reports := by
    rw [List.map_append, List.mem_append, List.map_map, or_comm]
    simp
  simp only [hkeys]

/-- One interval is published in full exactly when every default key was received or is among the
default entries that were not overwritten. -/
theorem publishes_publishedFor_iff {reports : List Report}
    (hcapacity : reports.length ≤ maxMetricsPerInterval)
    (hsums : ∀ key, toInt (received reports key) = received reports key) :
    Publishes reports (publishedFor reports) ↔
      ∀ key ∈ defaultZeroMetrics,
        key ∈ reports.map Prod.fst ∨ key ∈ survivingDefaults reports := by
  have hsub : ∀ key ∈ survivingDefaults reports, key ∈ defaultZeroMetrics :=
    fun key => List.mem_of_mem_drop
  simp only [Publishes, getElem?_publishedFor hcapacity, hsums]
  constructor
  · intro h key hdefault
    have hkey := h key
    rw [if_pos (Or.inr hdefault)] at hkey
    by_contra hmissing
    rw [if_neg hmissing] at hkey
    exact absurd hkey (by simp)
  · intro h key
    by_cases hreceived : key ∈ reports.map Prod.fst
    · rw [if_pos (.inl hreceived), if_pos (.inl hreceived)]
    · by_cases hdefault : key ∈ defaultZeroMetrics
      · rw [if_pos (h key hdefault), if_pos (.inr hdefault)]
      · rw [if_neg (by rintro (h | h) <;> simp_all), if_neg (by tauto)]

/-- Within the capacity the monitor publishes every interval in full, no value lost or counted
twice, exactly when in each of them every default key was received or not overwritten. -/
theorem defaults_published (events : List Event)
    (hcapacity : ∀ reports ∈ intervals events, reports.length ≤ maxMetricsPerInterval)
    (hsums : ∀ reports ∈ intervals events, ∀ key,
      -2 ^ 31 ≤ received reports key ∧ received reports key < 2 ^ 31) :
    List.Forall₂ Publishes (intervals events) (localMonitorMain events).tail ↔
      ∀ reports ∈ intervals events, ∀ key ∈ defaultZeroMetrics,
        key ∈ reports.map Prod.fst ∨ key ∈ survivingDefaults reports := by
  rw [localMonitorMain_tail, List.forall₂_map_right_iff, List.forall₂_same]
  refine forall₂_congr fun reports hreports => ?_
  exact publishes_publishedFor_iff (hcapacity reports hreports) fun key =>
    toInt_of_range (hsums reports hreports key).1 (hsums reports hreports key).2

/-- An interval with reports of a metric of its own and of two default ones, a quiet one, and one
with a single report. -/
def quietEvents : List Event :=
  [.tick, .report (text "x", 1), .report (numFilesShipped, 3), .report (lostDuringShip, 1),
    .report (text "x", -4), .report (numFilesShipped, 2), .tick, .tick, .report (text "x", 7),
    .tick]

/-- All of them are published in full. -/
theorem defaults_published_quiet :
    (intervals quietEvents).map List.length = [5, 0, 1] ∧
      List.Forall₂ Publishes (intervals quietEvents) (localMonitorMain quietEvents).tail := by
  refine ⟨by decide, (defaults_published quietEvents (by decide) ?_).2 (by decide)⟩
  intro reports hreports key
  have hintervals : intervals quietEvents = [[(text "x", 1), (numFilesShipped, 3),
      (lostDuringShip, 1), (text "x", -4), (numFilesShipped, 2)], [], [(text "x", 7)]] := rfl
  rw [hintervals] at hreports
  simp only [List.mem_cons, List.not_mem_nil, or_false] at hreports
  obtain rfl | rfl | rfl := hreports
  · simp only [received_cons, received_nil]
    split_ifs <;> decide
  · rw [received_nil]
    decide
  · rw [received_cons, received_nil]
    split_ifs <;> decide

/-- As many reports as the capacity allows. -/
def fullInterval : List Report :=
  List.replicate maxMetricsPerInterval (text "x", 1)

/-- A full interval between two ticks. -/
def busyEvents : List Event :=
  .tick :: List.replicate maxMetricsPerInterval (.report (text "x", 1)) ++ [.tick]

/-- Reports that all arrive before the first tick are pending at it. -/
theorem receivedPerTick_replicate (count : ℕ) (pending : List Report) (newReport : Report)
    (events : List Event) :
    receivedPerTick pending (List.replicate count (.report newReport) ++ events) =
      receivedPerTick (pending ++ List.replicate count newReport) events := by
  induction count generalizing pending with
  | zero => simp
  | succ count ih =>
      rw [List.replicate_succ, List.cons_append, receivedPerTick, ih, List.replicate_succ,
        List.append_assoc, List.singleton_append]

/-- Every one of these reports counts for the same key. -/
theorem received_replicate (count : ℕ) (name : Text) (value : Int) (key : Text) :
    received (List.replicate count (name, value)) key =
      if name = key then count * value else 0 := by
  induction count with
  | zero => simp
  | succ count ih =>
      rw [List.replicate_succ, received_cons, ih]
      by_cases hkey : name = key
      · simp only [hkey, if_true]
        push_cast
        ring
      · simp [hkey]

/-- A thousand reports overwrite all default entries, although they fit the capacity. -/
theorem busyEvents_not_published :
    (∀ reports ∈ intervals busyEvents, reports.length ≤ maxMetricsPerInterval) ∧
    (∀ reports ∈ intervals busyEvents, ∀ key,
      -2 ^ 31 ≤ received reports key ∧ received reports key < 2 ^ 31) ∧
    ¬ List.Forall₂ Publishes (intervals busyEvents) (localMonitorMain busyEvents).tail := by
  have hintervals : intervals busyEvents = [fullInterval] := by
    rw [intervals, busyEvents, List.cons_append, receivedPerTick, List.tail_cons,
      receivedPerTick_replicate]
    rfl
  have hpublished : (localMonitorMain busyEvents).tail = [publishedFor fullInterval] := by
    rw [localMonitorMain_tail, hintervals]
    rfl
  have hfull : fullInterval.length = maxMetricsPerInterval := List.length_replicate
  have hsums : ∀ key,
      -2 ^ 31 ≤ received fullInterval key ∧ received fullInterval key < 2 ^ 31 := by
    intro key
    rw [fullInterval, received_replicate]
    split <;> decide
  rw [hintervals, hpublished]
  refine ⟨List.forall_mem_singleton.2 hfull.le, List.forall_mem_singleton.2 hsums, ?_⟩
  rw [List.forall₂_cons, publishes_publishedFor_iff hfull.le fun key =>
    toInt_of_range (hsums key).1 (hsums key).2]
  rintro ⟨hall, _⟩
  obtain hmem | hmem := hall filesToShip (by decide)
  · have hkey : filesToShip = text "x" := by
      obtain ⟨report, hreport, hname⟩ := List.mem_map.1 hmem
      rw [← hname, List.eq_of_mem_replicate hreport]
    exact absurd hkey (by decide)
  · rw [survivingDefaults_eq_nil hfull] at hmem
    exact absurd hmem List.not_mem_nil

end Barn.Agent
