import Barn.Agent.Deployment
import Barn.Agent.Monitor
import Barn.Interaction.Datagrams
import Mathlib.Algebra.BigOperators.Group.Finset.Piecewise
import Mathlib.Algebra.Order.Group.Multiset

/-!
# Agents and their monitor

A host with any number of agents and the local monitor that they report to. Between them datagrams
may be lost and overtake each other. What an agent sends is proper (`obeys_barnAgentPass`) and read
back, and every value that was reported is published once, is about to be, or was in a datagram
that did not arrive (`reported_published`).
-/

namespace Barn.Agent.Telemetry

open Interaction Delivery

section Monitor

/-- The reports among the events. -/
def reportsIn : List Agent.Event → List Report
  | [] => []
  | .report newReport :: events => newReport :: reportsIn events
  | .tick :: events => reportsIn events

/-- The reports since the last tick, and these before them if there was none. -/
def sinceTick (pending : List Report) : List Agent.Event → List Report
  | [] => pending
  | .report newReport :: events => sinceTick (pending ++ [newReport]) events
  | .tick :: events => sinceTick [] events

/-- The sum of all values published under a key. -/
def totalPublished (events : List Agent.Event) (key : Text) : Int :=
  ((localMonitorMain events).map fun published => published[key]?.getD 0).sum

/-- What is published under a key is the sum of what was received for it. -/
def Sums (reports : List Report) (published : Std.TreeMap Text Int) : Prop :=
  ∀ key, published[key]?.getD 0 = received reports key

/-- As many reports as the repository holds, with sums that are of type `int`. -/
structure Fits (reports : List Report) : Prop where
  length_le : reports.length ≤ maxMetricsPerInterval
  sums : ∀ key, toInt (received reports key) = received reports key

@[simp] theorem reportsIn_append (first second : List Agent.Event) :
    reportsIn (first ++ second) = reportsIn first ++ reportsIn second := by
  induction first with
  | nil => rfl
  | cons event events ih => cases event <;> simp [reportsIn, ih]

/-- Every report is received before some tick or after the last one. -/
theorem flatten_receivedPerTick (pending : List Report) (events : List Agent.Event) :
    (receivedPerTick pending events).flatten ++ sinceTick pending events =
      pending ++ reportsIn events := by
  induction events generalizing pending with
  | nil => simp [receivedPerTick, sinceTick, reportsIn]
  | cons event events ih =>
      cases event with
      | report newReport =>
          rw [receivedPerTick, sinceTick, ih, reportsIn, List.append_assoc, List.singleton_append]
      | tick =>
          rw [receivedPerTick, sinceTick, List.flatten_cons, List.append_assoc, ih, reportsIn,
            List.nil_append]

theorem received_append (first second : List Report) (key : Text) :
    received (first ++ second) key = received first key + received second key := by
  induction first with
  | nil => rw [List.nil_append, received_nil, zero_add]
  | cons report reports ih => rw [List.cons_append, received_cons, received_cons, ih, add_assoc]

theorem received_flatten (intervals : List (List Report)) (key : Text) :
    received intervals.flatten key = (intervals.map fun reports => received reports key).sum := by
  induction intervals with
  | nil => rfl
  | cons reports intervals ih =>
      rw [List.flatten_cons, received_append, List.map_cons, List.sum_cons, ih]

/-- The aggregate of a buffer that begins with zeros sums the reports that come after them. -/
theorem sums_aggregate {zeros : List Text} {reports : List Report} (h : Fits reports) :
    Sums reports
      (aggregate ((CircularBuffer.clear.pushAll (zeros.map fun key => (key, 0))).pushAll
        reports : MetricRepo).items) := by
  intro key
  rw [getElem?_aggregate, CircularBuffer.items_pushAll_pushAll_clear _ h.length_le,
    ← List.map_drop, received_defaults_append]
  split
  · rw [Option.getD_some, h.sums]
  · next hnone =>
      rw [Option.getD_none]
      refine (received_eq_zero fun hmem => hnone ?_).symm
      rw [List.map_append]
      exact List.mem_append_right _ hmem

/-- Every tick publishes the sums of what was received since the previous one. -/
theorem run_sums (zeros : List Text) (pending : List Report) (events : List Agent.Event)
    (h : ∀ reports ∈ receivedPerTick pending events, Fits reports) :
    List.Forall₂ Sums (receivedPerTick pending events)
      (run ((CircularBuffer.clear.pushAll (zeros.map fun key => (key, 0))).pushAll pending)
        events) := by
  induction events generalizing zeros pending with
  | nil => exact .nil
  | cons event events ih =>
      cases event with
      | report newReport =>
          have hrest := ih zeros (pending ++ [newReport]) h
          rw [CircularBuffer.pushAll_append] at hrest
          exact hrest
      | tick =>
          -- The repository holds the defaults after the tick.
          refine .cons (sums_aggregate (h _ List.mem_cons_self)) ?_
          exact ih defaultZeroMetrics [] fun reports hmem => h reports (List.mem_cons_of_mem _ hmem)

/-- Everything received is published once, or was received after the last tick. -/
theorem totalPublished_add {events : List Agent.Event}
    (h : ∀ reports ∈ receivedPerTick [] events, Fits reports) (key : Text) :
    totalPublished events key + received (sinceTick [] events) key =
      received (reportsIn events) key := by
  have hsums : ∀ {perTick : List (List Report)} {published : List (Std.TreeMap Text Int)},
      List.Forall₂ Sums perTick published →
        (published.map fun map => map[key]?.getD 0).sum =
          (perTick.map fun reports => received reports key).sum := by
    intro perTick published hall
    induction hall with
    | nil => rfl
    | cons hfirst _ ih => rw [List.map_cons, List.sum_cons, List.map_cons, List.sum_cons, ih,
        hfirst key]
  rw [totalPublished, localMonitorMain]
  have hrun := hsums (run_sums [] [] events h)
  rw [List.map_nil, CircularBuffer.pushAll_nil, CircularBuffer.pushAll_nil] at hrun
  rw [hrun, ← received_flatten, ← received_append, flatten_receivedPerTick, List.nil_append]

end Monitor

section Datagrams

/-- What an agent sends for a report. -/
def datagramOf (port : Int) (report : Report) : Int × Text :=
  (port, metricDatagram report.1 report.2)

/-- The keys of metrics are short words. -/
theorem metricKeys_words : ∀ key ∈ metricKeys,
    key ≠ [] ∧ (∀ unit ∈ key, isSpace unit = false) ∧ key.length ≤ 34 := by
  decide

/-- An `int` has at most ten digits. -/
theorem length_formatInt_le {value : Int} (h : toInt value = value) :
    (formatInt value).length ≤ 11 := by
  have hlow := neg_le_toInt value
  have hhigh := toInt_lt value
  rw [h] at hlow hhigh
  have hpadded : (Decimal.padded 1 value.natAbs).length ≤ 10 :=
    Decimal.length_padded_le (by omega) (by omega)
  rw [formatInt]
  split
  · rw [List.length_cons]
    omega
  · omega

/-- A proper report arrives as it was sent. -/
theorem receiveReports_metricDatagram {report : Report} (h : report.Proper)
    (uninitialised : Int) :
    receiveReports uninitialised (metricDatagram report.1 report.2) = report := by
  obtain ⟨hne, hword, hlength⟩ := metricKeys_words report.1 h.key
  have hvalue := length_formatInt_le h.value
  have hlow := neg_le_toInt report.2
  have hhigh := toInt_lt report.2
  rw [h.value] at hlow hhigh
  have hfits : (metricDatagram report.1 report.2).length ≤ bufferSize := by
    rw [metricDatagram, List.length_append, List.length_cons, bufferSize]
    omega
  rw [receiveReports, receiveDatagram, List.take_of_length_le hfits]
  exact deserialize_metricDatagram hne hword hlow hhigh uninitialised

end Datagrams

section Agents

variable {place : Place} {barnConf : Params.BarnConf} {monitorPort : Int}

/-- All of these reports are proper. -/
def AllProper (reports : List Report) : Prop :=
  ∀ report ∈ reports, report.Proper

/-- Calls that send nothing but proper reports to this port. -/
def systemRequests (monitorPort : Int) : Discipline systemSignature where
  may
    | .sendDatagram port message =>
        0 < monitorPort ∧ ∃ report : Report, report.Proper ∧
          (port, message) = datagramOf monitorPort report
    | _ => True
  permits
    | .selectorMetrics, reports => AllProper reports
    | _, _ => True

/-- Calls that send nothing. -/
def SendsNothing : SystemCall → Prop
  | .sendDatagram _ _ => False
  | _ => True

/-- A procedure that sends nothing obeys. -/
theorem obeys_of_sendsNothing {α : Type} {procedure : Procedure α} {post : α → Prop}
    (h : procedure.Asks SendsNothing) (hpost : ∀ value, post value) :
    procedure.Obeys (systemRequests monitorPort) post := by
  have hmay : procedure.Asks (systemRequests monitorPort).may := by
    refine h.mono fun systemCall hnothing => ?_
    cases systemCall <;> trivial
  exact (Program.Asks.obeys hmay).mono fun value _ => hpost value

/-- rsync processes are not datagrams. -/
theorem sendsNothing_doRsyncLoop (args : List Text) (rsyncOutput : Int × Text) (tries : ℕ) :
    (doRsyncLoop args rsyncOutput tries).Asks SendsNothing := by
  induction tries generalizing rsyncOutput with
  | zero => exact trivial
  | succ tries ih =>
      refine ⟨trivial, fun reply => ?_⟩
      cases reply with
      | none => exact ⟨trivial, fun reply => reply.elim⟩
      | some output =>
          show Program.Asks SendsNothing (if output.1 ≠ clientServerProtocol then .done output
            else doRsyncLoop args output tries)
          split
          · exact trivial
          · exact ih output

/-- A proper report is sent, if there is a port. -/
theorem obeys_sendMetricCall {report : Report} (h : report.Proper) :
    (sendMetricCall monitorPort report).Obeys (systemRequests monitorPort) fun _ => True := by
  by_cases hport : 0 < monitorPort
  · rw [sendMetricCall_of_pos hport]
    exact ⟨⟨hport, report, h, rfl⟩, fun _ _ => trivial⟩
  · rw [sendMetricCall_of_not_pos hport]
    exact trivial

theorem obeys_sendMetricsCall {reports : List Report} (h : AllProper reports) :
    (sendMetricsCall monitorPort reports).Obeys (systemRequests monitorPort) fun _ => True := by
  induction reports with
  | nil => exact trivial
  | cons report reports ih =>
      refine (obeys_sendMetricCall (h report List.mem_cons_self)).bind fun _ _ => ?_
      exact ih fun other hother => h other (List.mem_cons_of_mem _ hother)

/-- What the objects of the agent do sends nothing but what a round reports. -/
theorem obeys_perform (monitorPort : Int) {command : Command}
    (hmay : (requests fun _ => True).may command) :
    (perform monitorPort command).Obeys (systemRequests monitorPort)
      ((requests fun _ => True).permits command) := by
  have hpermits : ∀ reply, (requests fun _ => True).permits command reply := by
    intro reply
    cases command <;> trivial
  cases command with
  | listLogDirectory directory =>
      refine obeys_of_sendsNothing ⟨trivial, fun listing => ?_⟩ hpermits
      cases listing with
      | none => exact ⟨trivial, fun reply => reply.elim⟩
      | some listing => exact trivial
  | logFilesNotOnTarget directory files target =>
      refine obeys_of_sendsNothing ?_ hpermits
      show Program.Asks SendsNothing
        (if files.length = 0 then _ else _ : Procedure (Validation (List Text)))
      split
      · exact trivial
      · exact (sendsNothing_doRsyncLoop _ _ _).bind fun _ => trivial
  | shipFile path target =>
      exact obeys_of_sendsNothing ((sendsNothing_doRsyncLoop _ _ _).bind fun _ => trivial)
        hpermits
  | waitForNewFileInDirectory directory sleepSeconds =>
      refine obeys_of_sendsNothing ⟨trivial, fun result => ?_⟩ hpermits
      cases result with
      | none => exact ⟨trivial, fun _ => trivial⟩
      | some result => exact trivial
  | sendMetric report => exact (obeys_sendMetricCall hmay).mono fun _ _ => trivial
  | pickChannel => exact obeys_of_sendsNothing ⟨trivial, fun _ => trivial⟩ hpermits
  | heartbeat => exact obeys_of_sendsNothing ⟨trivial, fun _ => trivial⟩ hpermits
  | fileExists path => exact obeys_of_sendsNothing ⟨trivial, fun _ => trivial⟩ hpermits
  | rand => exact obeys_of_sendsNothing ⟨trivial, fun _ => trivial⟩ hpermits
  | sleep seconds => exact obeys_of_sendsNothing ⟨trivial, fun _ => trivial⟩ hpermits

/-- A pass of the main loop sends nothing but proper reports. -/
theorem obeys_barnAgentPass (barnConf : Params.BarnConf) :
    (barnAgentPass barnConf).Obeys (systemRequests barnConf.monitorPort) fun _ => True := by
  have hround := (obeys_dispatchNewLogs ⟨barnConf.sleepSeconds⟩).implement
    fun command hmay => obeys_perform barnConf.monitorPort hmay
  refine hround.bind fun _ _ => ⟨trivial, fun reports hreports => ?_⟩
  exact obeys_sendMetricsCall hreports

/-- What the selector reports about itself is proper. -/
theorem proper_sendMetrics (selector : ChannelSelector AgentChannel) (now : Int) :
    AllProper (selector.sendMetrics now) := by
  cases selector with
  | single channel => simp [AllProper, ChannelSelector.sendMetrics]
  | failover selector =>
      intro report hreport
      rw [ChannelSelector.sendMetrics, FailoverChannelSelector.sendMetrics] at hreport
      rcases List.mem_cons.1 hreport with rfl | hover
      · exact ⟨by simp [metricKeys], toInt_toInt _⟩
      · split at hover
        · simp at hover
        · rw [List.mem_singleton.1 hover]
          exact ⟨by simp [metricKeys, defaultZeroMetrics], rfl⟩

/-- The reply to a request for metrics is proper. -/
theorem systemAnswer_permits {systemCall : SystemCall} {outcome : SystemOutcome}
    {reply : systemCall.Reply} {system after : System}
    (h : systemAnswer place systemCall outcome system = some (reply, after)) :
    (systemRequests monitorPort).permits systemCall reply := by
  cases systemCall
  case selectorMetrics =>
    cases outcome <;> simp only [systemAnswer, reduceCtorEq] at h
    case reads now =>
      obtain ⟨rfl, rfl⟩ := answer_parts h
      exact proper_sendMetrics _ now
  all_goals trivial

/-- A process of rsync sends no datagrams. -/
theorem datagrams_rsync {args : List Text} {result reply : Option (Int × Text)}
    {arrived : Option ℕ} {system after : System}
    (h : rsync place args result arrived system = some (reply, after)) :
    after.datagrams = system.datagrams := by
  unfold rsync at h
  split at h
  · rw [(answer_parts h).2]
  · simp at h
  · split at h
    · rw [(answer_parts h).2]
    · split at h
      · obtain ⟨_, hparts⟩ := Option.ite_none_right_eq_some.1 h
        rw [(answer_parts hparts).2]
      · split at h
        · obtain ⟨_, hparts⟩ := Option.ite_none_left_eq_some.1 h
          rw [(answer_parts hparts).2]
        · obtain ⟨_, hparts⟩ := Option.ite_none_left_eq_some.1 h
          obtain ⟨name, _, hname⟩ := Option.map_eq_some_iff.1 hparts
          rw [← (Prod.mk.inj hname).2]
        · simp at h

/-- A call sends its datagram, or nothing. -/
theorem datagrams_systemAnswer {systemCall : SystemCall} {outcome : SystemOutcome}
    {reply : systemCall.Reply} {system after : System}
    (hmay : (systemRequests monitorPort).may systemCall)
    (h : systemAnswer place systemCall outcome system = some (reply, after)) :
    ∃ reports : List Report, AllProper reports ∧
      after.datagrams = system.datagrams ++ reports.map (datagramOf monitorPort) := by
  have hnothing : after.datagrams = system.datagrams → ∃ reports : List Report,
      AllProper reports ∧
        after.datagrams = system.datagrams ++ reports.map (datagramOf monitorPort) := by
    intro hsame
    exact ⟨[], by simp [AllProper], by rw [hsame, List.map_nil, List.append_nil]⟩
  cases systemCall <;> cases outcome <;> simp only [systemAnswer, reduceCtorEq] at h
  case sendDatagram.ok port message =>
    obtain ⟨_, report, hproper, hdatagram⟩ := hmay
    obtain ⟨_, rfl⟩ := answer_parts h
    refine ⟨[report], by simpa [AllProper] using hproper, ?_⟩
    rw [List.map_singleton, ← hdatagram]
  case directoryEntries.entries directory listing =>
    cases listing with
    | none => exact hnothing (by rw [(answer_parts h).2])
    | some listing =>
        obtain ⟨_, hparts⟩ := Option.ite_none_right_eq_some.1 h
        exact hnothing (by rw [(answer_parts hparts).2])
  case runCommand.exits cmd args result arrived =>
    by_cases hcmd : cmd = rsyncExecutableName
    · exact hnothing (datagrams_rsync ((if_pos hcmd).symm.trans h))
    · exact hnothing (by rw [(answer_parts ((if_neg hcmd).symm.trans h)).2])
  all_goals exact hnothing (by rw [(answer_parts h).2])

/-- A step of an agent sends proper reports, or nothing. -/
theorem datagrams_step {label : (deployed place barnConf).Label}
    {config config' : (deployed place barnConf).Config}
    (hobeys : config.1.Obeys (systemRequests barnConf.monitorPort) fun _ => True)
    (hstep : (deployed place barnConf).step label config = some config') :
    ∃ reports : List Report, AllProper reports ∧ config'.2.datagrams =
      config.2.datagrams ++ reports.map (datagramOf barnConf.monitorPort) := by
  have hnothing : config'.2.datagrams = config.2.datagrams → ∃ reports : List Report,
      AllProper reports ∧ config'.2.datagrams =
        config.2.datagrams ++ reports.map (datagramOf barnConf.monitorPort) := by
    intro hsame
    exact ⟨[], by simp [AllProper], by rw [hsame, List.map_nil, List.append_nil]⟩
  obtain ⟨program, system⟩ := config
  cases label with
  | event event =>
      obtain ⟨after, hoccurs, rfl⟩ := Option.map_eq_some_iff.1 hstep
      obtain ⟨world, _, rfl⟩ := Option.map_eq_some_iff.1 hoccurs
      exact hnothing rfl
  | start =>
      cases program with
      | request systemCall next => simp [Rounds.step] at hstep
      | done value =>
          rw [← Option.some.inj hstep] at hnothing ⊢
          exact hnothing rfl
  | answer outcome =>
      cases program with
      | done value => simp [Rounds.step] at hstep
      | request systemCall next =>
          obtain ⟨⟨reply, after⟩, hanswer, rfl⟩ := Option.map_eq_some_iff.1 hstep
          exact datagrams_systemAnswer hobeys.1 hanswer

end Agents

section Fleet

variable {ι : Type} [DecidableEq ι] [Fintype ι]

/-- The agents of a host, and the port of the monitor there. -/
structure Fleet (ι : Type) where
  place : ι → Place
  barnConf : ι → Params.BarnConf
  monitorPort : Int

/-- What is left of the passes of the agents, their surroundings, the datagrams to the monitor, and
what happened to its repository. -/
structure Host (ι : Type) where
  agents : ι → Procedure Unit × System
  network : Datagrams Text
  events : List Agent.Event

/-- The messages of the datagrams for a port. -/
def addressed (port : Int) (datagrams : List (Int × Text)) : List Text :=
  (datagrams.filter fun datagram => datagram.1 = port).map Prod.snd

namespace Fleet

/-- What can happen on a host: something at one of the agents, a datagram is lost or received, the
timer of the monitor fires. -/
inductive Label (fleet : Fleet ι) where
  | agent (agent : ι) (label : (deployed (fleet.place agent) (fleet.barnConf agent)).Label)
  | lose (message : Text)
  | receive (message : Text) (uninitialised : Int)
  | tick

variable (fleet : Fleet ι)

/-- One entry of a run, if it can happen here. -/
def step : fleet.Label → Host ι → Option (Host ι)
  | .agent agent label, host =>
      ((deployed (fleet.place agent) (fleet.barnConf agent)).step label (host.agents agent)).map
        fun config =>
          let new := config.2.datagrams.drop (host.agents agent).2.datagrams.length
          { host with
            agents := Function.update host.agents agent config
            network := host.network.send (addressed fleet.monitorPort new) }
  | .lose message, host =>
      (host.network.lose message).map fun network => { host with network := network }
  | .receive message uninitialised, host =>
      (host.network.receive message).map fun network =>
        { host with
          network := network
          events := host.events ++ [.report (receiveReports uninitialised message)] }
  | .tick, host => some { host with events := host.events ++ [.tick] }

/-- Perform the entries of a run in order. -/
def run : List fleet.Label → Host ι → Option (Host ι)
  | [], host => some host
  | label :: labels, host => (fleet.step label host).bind (run labels)

/-- The agents and the monitor start. -/
structure Initial (host : Host ι) : Prop where
  agents : ∀ agent, (host.agents agent).1 = .done ()
  datagrams : ∀ agent, (host.agents agent).2.datagrams = []
  network : host.network = .empty
  events : host.events = []

/-- The agents have sent reports, and those that arrived are in the repository. -/
structure Sound (host : Host ι) : Prop where
  obeys : ∀ agent, (host.agents agent).1.Obeys
    (systemRequests (fleet.barnConf agent).monitorPort) fun _ => True
  reports : ∀ agent, ∃ reports : List Report, AllProper reports ∧
    (host.agents agent).2.datagrams =
      reports.map (datagramOf (fleet.barnConf agent).monitorPort)
  sent : host.network.sent = ∑ agent,
    (addressed fleet.monitorPort (host.agents agent).2.datagrams : Multiset Text)
  received : (reportsIn host.events : Multiset Report) =
    host.network.received.map (receiveReports 0)

variable {fleet} {host host' : Host ι} {agent : ι} {message : Text}

@[simp] theorem addressed_append (port : Int) (first second : List (Int × Text)) :
    addressed port (first ++ second) = addressed port first ++ addressed port second := by
  simp [addressed]

/-- All datagrams of an agent go to the same port. -/
theorem addressed_datagramOf (port agentPort : Int) (reports : List Report) :
    addressed port (reports.map (datagramOf agentPort)) =
      if agentPort = port then reports.map fun report => metricDatagram report.1 report.2
      else [] := by
  split
  · next hport =>
      rw [addressed, List.filter_eq_self.2, List.map_map]
      · rfl
      · intro datagram hdatagram
        obtain ⟨report, _, rfl⟩ := List.mem_map.1 hdatagram
        exact decide_eq_true hport
  · next hport =>
      rw [addressed, List.filter_eq_nil_iff.2, List.map_nil]
      intro datagram hdatagram
      obtain ⟨report, _, rfl⟩ := List.mem_map.1 hdatagram
      simp [datagramOf, hport]

/-- Only the datagrams of one agent are more. -/
theorem sum_addressed_update {config : Procedure Unit × System} {new : List (Int × Text)}
    (agents : ι → Procedure Unit × System) (port : Int)
    (hnew : config.2.datagrams = (agents agent).2.datagrams ++ new) :
    ∑ other, (addressed port (Function.update agents agent config other).2.datagrams :
        Multiset Text) =
      ∑ other, (addressed port (agents other).2.datagrams : Multiset Text) +
        (addressed port new : Multiset Text) := by
  rw [← Finset.add_sum_erase _ _ (Finset.mem_univ agent),
    ← Finset.add_sum_erase Finset.univ (fun other =>
      (addressed port (agents other).2.datagrams : Multiset Text)) (Finset.mem_univ agent)]
  have hothers : ∀ other ∈ Finset.univ.erase agent,
      (addressed port (Function.update agents agent config other).2.datagrams : Multiset Text) =
        addressed port (agents other).2.datagrams := by
    intro other hother
    rw [Function.update_of_ne (Finset.ne_of_mem_erase hother)]
  rw [Finset.sum_congr rfl hothers, Function.update_self, hnew, addressed_append,
    ← Multiset.coe_add]
  abel

omit [DecidableEq ι] in
/-- What was sent to the monitor is of proper reports. -/
theorem Sound.of_mem_sent (h : fleet.Sound host) (hmessage : message ∈ host.network.sent) :
    ∃ report : Report, report.Proper ∧ message = metricDatagram report.1 report.2 := by
  rw [h.sent, Multiset.mem_sum] at hmessage
  obtain ⟨agent, _, hmem⟩ := hmessage
  obtain ⟨reports, hproper, hdatagrams⟩ := h.reports agent
  rw [hdatagrams, addressed_datagramOf] at hmem
  split at hmem
  · obtain ⟨report, hreport, rfl⟩ := List.mem_map.1 (Multiset.mem_coe.1 hmem)
    exact ⟨report, hproper report hreport, rfl⟩
  · simp at hmem

omit [DecidableEq ι] in
/-- In the beginning nothing was sent. -/
theorem Initial.sound (h : Initial host) : fleet.Sound host where
  obeys agent := by
    rw [h.agents agent]
    exact trivial
  reports agent := ⟨[], by simp [AllProper], h.datagrams agent⟩
  sent := by
    rw [h.network, Finset.sum_eq_zero]
    · rfl
    · intro agent _
      rw [h.datagrams agent]
      rfl
  received := by
    rw [h.network, h.events]
    rfl

/-- Whatever happens on the host keeps this. -/
theorem Sound.step (h : fleet.Sound host) {label : fleet.Label}
    (hstep : fleet.step label host = some host') : fleet.Sound host' := by
  cases label with
  | agent agent label =>
      obtain ⟨config, hconfig, rfl⟩ := Option.map_eq_some_iff.1 hstep
      obtain ⟨reports, hproper, hdatagrams⟩ := datagrams_step (h.obeys agent) hconfig
      have hobeys := Rounds.obeys_step (obeys_barnAgentPass (fleet.barnConf agent))
        (fun _ _ _ _ _ _ hanswer => systemAnswer_permits hanswer) (h.obeys agent) hconfig
      obtain ⟨earlier, hearlier, hsent⟩ := h.reports agent
      refine ⟨?_, ?_, ?_, h.received⟩
      · exact (Function.forall_update_iff host.agents (p := fun other config =>
          config.1.Obeys (systemRequests (fleet.barnConf other).monitorPort) fun _ => True)).2
          ⟨hobeys, fun other _ => h.obeys other⟩
      · refine (Function.forall_update_iff host.agents (p := fun other config =>
          ∃ reports : List Report, AllProper reports ∧ config.2.datagrams =
            reports.map (datagramOf (fleet.barnConf other).monitorPort))).2
          ⟨⟨earlier ++ reports, List.forall_mem_append.2 ⟨hearlier, hproper⟩, ?_⟩,
            fun other _ => h.reports other⟩
        rw [hdatagrams, hsent, List.map_append]
      · show host.network.sent + _ = _
        -- What this agent has sent is all of its datagrams, so only the new ones are to be added.
        rw [sum_addressed_update _ _ hdatagrams, h.sent, hdatagrams, List.drop_left]
  | lose message =>
      obtain ⟨network, hlose, rfl⟩ := Option.map_eq_some_iff.1 hstep
      obtain ⟨hsent, hreceived⟩ := Datagrams.lose_eq_some hlose
      exact { h with sent := hsent.trans h.sent, received := by rw [hreceived, h.received] }
  | receive message uninitialised =>
      obtain ⟨network, hreceive, rfl⟩ := Option.map_eq_some_iff.1 hstep
      obtain ⟨hmem, hsent, hreceived⟩ := Datagrams.receive_eq_some hreceive
      -- The datagram was made by an agent, so it is read back as the report that it was made of.
      obtain ⟨report, hproper, rfl⟩ := h.of_mem_sent hmem
      refine { h with sent := hsent.trans h.sent, received := ?_ }
      rw [hreceived, Multiset.map_cons, reportsIn_append, ← Multiset.coe_add, h.received,
        receiveReports_metricDatagram hproper, receiveReports_metricDatagram hproper,
        ← Multiset.singleton_add, add_comm]
      rfl
  | tick =>
      rw [← Option.some.inj hstep]
      refine { h with received := ?_ }
      rw [reportsIn_append, ← h.received]
      exact congrArg _ (List.append_nil _)

/-- So does a whole run. -/
theorem Sound.run (h : fleet.Sound host) {labels : List fleet.Label}
    (hrun : fleet.run labels host = some host') : fleet.Sound host' := by
  induction labels generalizing host with
  | nil => exact Option.some.inj hrun ▸ h
  | cons label labels ih =>
      obtain ⟨middle, hstep, hrest⟩ := Option.bind_eq_some_iff.1 hrun
      exact ih (h.step hstep) hrest

/-- What a message reports for a key. -/
def carries (key message : Text) : Int :=
  Agent.received [receiveReports 0 message] key

/-- Reports count one by one. -/
theorem sum_received (reports : List Report) (key : Text) :
    (reports.map fun report => Agent.received [report] key).sum = Agent.received reports key := by
  induction reports with
  | nil => rfl
  | cons report reports ih =>
      rw [List.map_cons, List.sum_cons, ih, ← received_append, List.singleton_append]

/-- The messages of proper reports carry what was reported. -/
theorem sum_carries {reports : List Report} (h : AllProper reports) (key : Text) :
    ((reports.map fun report => metricDatagram report.1 report.2).map (carries key)).sum =
      Agent.received reports key := by
  rw [List.map_map, ← sum_received]
  refine congrArg _ (List.map_congr_left fun report hreport => ?_)
  rw [Function.comp_apply, carries, receiveReports_metricDatagram (h report hreport)]

omit [DecidableEq ι] in
/-- The monitor has been told what the messages carry that were received. -/
theorem Sound.sum_carries_received (h : fleet.Sound host) (key : Text) :
    (host.network.received.map (carries key)).sum =
      Agent.received (reportsIn host.events) key := by
  have hcarries : carries key =
      (fun report => Agent.received [report] key) ∘ receiveReports 0 := rfl
  rw [hcarries, ← Multiset.map_map, ← h.received, Multiset.map_coe, Multiset.sum_coe, sum_received]

/-- Every value that the agents reported was published once, waits for the next tick, or is in a
datagram in flight or lost, and a datagram is read back as it was sent: as long as the monitor is
not flooded, nothing is counted twice and nothing disappears on the way. -/
theorem reported_published {labels : List fleet.Label} (hinitial : Initial host)
    (hrun : fleet.run labels host = some host')
    (hfits : ∀ reports ∈ receivedPerTick [] host'.events, Fits reports) :
    ∃ reports : ι → List Report,
      (∀ agent, AllProper (reports agent) ∧ (host'.agents agent).2.datagrams =
        (reports agent).map (datagramOf (fleet.barnConf agent).monitorPort)) ∧
      (∀ agent, ∀ report ∈ reports agent, ∀ uninitialised,
        receiveReports uninitialised (metricDatagram report.1 report.2) = report) ∧
      ∀ key, totalPublished host'.events key +
          Agent.received (sinceTick [] host'.events) key +
          (host'.network.inFlight.map (carries key)).sum +
          (host'.network.lost.map (carries key)).sum =
        ∑ agent, if (fleet.barnConf agent).monitorPort = fleet.monitorPort then
          Agent.received (reports agent) key else 0 := by
  have hsound : fleet.Sound host' := (Initial.sound hinitial).run hrun
  choose reports hproper hdatagrams using hsound.reports
  refine ⟨reports, fun agent => ⟨hproper agent, hdatagrams agent⟩, fun agent report hreport =>
    receiveReports_metricDatagram (hproper agent report hreport), fun key => ?_⟩
  have hsent : (host'.network.sent.map (carries key)).sum =
      ∑ agent, if (fleet.barnConf agent).monitorPort = fleet.monitorPort then
        Agent.received (reports agent) key else 0 := by
    have hmap : ∀ messages : Multiset Text, (messages.map (carries key)).sum =
        Multiset.sumAddMonoidHom (Multiset.mapAddMonoidHom (carries key) messages) :=
      fun _ => rfl
    rw [hsound.sent, hmap, map_sum, map_sum]
    refine Finset.sum_congr rfl fun agent _ => ?_
    show (Multiset.map (carries key)
      (addressed fleet.monitorPort (host'.agents agent).2.datagrams : Multiset Text)).sum = _
    rw [hdatagrams, addressed_datagramOf, Multiset.map_coe, Multiset.sum_coe]
    split
    · exact sum_carries (hproper agent) key
    · rfl
  rw [totalPublished_add hfits, ← hsound.sum_carries_received, ← hsent, Datagrams.sum_sent]
  abel

end Fleet

end Fleet

section Sample

/-- Two agents of the sample service that can fail over, and report to the same monitor. -/
def Fleet.sample : Fleet Bool where
  place _ := Place.sample
  barnConf _ := { sampleConf with
    secondaryRsyncAddr := text "backup"
    monitorPort := 7000
    secondsBeforeFailover := 90
    remoteRsyncNamespaceBackup := text "barn_backup_logs" }
  monitorPort := 7000

/-- The selector that such an agent starts with. -/
def sampleSelector : ChannelSelector AgentChannel :=
  .failover (.construct Delivery.sampleChannel
    { Delivery.sampleChannel with
      rsyncTarget := text "rsync://backup/barn_backup_logs/web@main@node1/" }
    90 (Int.natCast_succ_pos 89) 0)

/-- Agents and monitor have been started. -/
def Host.sample : Host Bool where
  agents _ := (.done (), ⟨{ World.sample with selector := sampleSelector }, []⟩)
  network := .empty
  events := []

/-- A pass of the main loop while there are no log files. It ends five seconds after the last sign
of life. -/
def quietPass (agent : Bool) : List Fleet.sample.Label :=
  [.start, .answer (.reads 1), .answer (.entries (some [text "current", text "lock"])),
    .answer (.exits (some (0, [])) none), .answer (.reads 2), .answer (.reads 7),
    .answer .ok].map (.agent agent)

/-- What the agents send after that. -/
def sampleMessage : Text :=
  text "time_since_success 5"

/-- One of the two datagrams is lost. -/
def quietRun : List Fleet.sample.Label :=
  quietPass false ++ quietPass true ++ [.tick, .lose sampleMessage, .receive sampleMessage 0, .tick]

/-- Ten seconds are reported and five are published. -/
theorem reported_published_sample : ∃ host', Fleet.sample.run quietRun Host.sample = some host' ∧
    totalPublished host'.events timeSinceSuccess = 5 ∧
    ∃ reports : Bool → List Report,
      (∀ agent, (host'.agents agent).2.datagrams = (reports agent).map (datagramOf 7000)) ∧
      ∑ agent, received (reports agent) timeSinceSuccess = 10 := by
  have hrun : ∃ host', Fleet.sample.run quietRun Host.sample = some host' ∧
      host'.events = [.tick, .report (timeSinceSuccess, 5), .tick] ∧
      host'.network.inFlight = 0 ∧ host'.network.lost = {sampleMessage} :=
    ⟨_, rfl, rfl, rfl, rfl⟩
  obtain ⟨host', hrun, hevents, hinFlight, hlost⟩ := hrun
  have hinitial : Fleet.Initial Host.sample := ⟨fun _ => rfl, fun _ => rfl, rfl, rfl⟩
  have hfits : ∀ reports ∈ receivedPerTick [] host'.events, Fits reports := by
    rw [hevents]
    intro reports hreports
    simp only [receivedPerTick, List.nil_append, List.mem_cons, List.not_mem_nil, or_false]
      at hreports
    rcases hreports with rfl | rfl
    · exact ⟨Nat.zero_le _, fun _ => rfl⟩
    · refine ⟨by decide, fun key => ?_⟩
      rw [received_cons]
      split <;> rfl
  have htotal : totalPublished host'.events timeSinceSuccess = 5 := by
    have hadd := totalPublished_add hfits timeSinceSuccess
    rw [hevents] at hadd ⊢
    exact (add_zero _).symm.trans hadd
  obtain ⟨reports, hreports, _, hkeys⟩ := Fleet.reported_published hinitial hrun hfits
  refine ⟨host', hrun, htotal, reports, fun agent => (hreports agent).2, ?_⟩
  have hkey := hkeys timeSinceSuccess
  rw [htotal, hinFlight, hlost, hevents] at hkey
  exact hkey.symm

end Sample

end Barn.Agent.Telemetry
