import Barn.Agent.ChannelSelector
import Barn.Agent.Dispatch
import Barn.Agent.Rsync

/-!
# Command line of the agent

`parse_command_line` of `params.cpp` and `create_channel_selector`, which reads the configuration.
Splitting `argv` into options is left to the library that does it: `VariablesMap` is what it finds.
The checks form one chain, in which a warning stands before two rejections
(`parseCommandLine_usable_iff`).
-/

namespace Barn.Agent.Params

/-- What `po::store` finds on the command line. An option that is not given is `none`. -/
structure VariablesMap where
  help : Bool
  targetAddr : Option Text
  backupAddr : Option Text
  source : Option Text
  serviceName : Option Text
  category : Option Text
  monitorPort : Option Int
  secondsBeforeFailover : Option Int
  sleepSeconds : Option Int
  remoteRsyncNamespace : Option Text
  remoteRsyncNamespaceBackup : Option Text
  monitorMode : Option Bool
  deriving DecidableEq

/-- `BarnConf` with all its fields. -/
structure BarnConf extends Agent.BarnConf where
  primaryRsyncAddr : Text
  secondaryRsyncAddr : Text
  sourceDir : Text
  serviceName : Text
  category : Text
  monitorMode : Bool
  monitorPort : Int
  secondsBeforeFailover : Int
  remoteRsyncNamespace : Text
  remoteRsyncNamespaceBackup : Text

/-- `po::notify` stores the values given and the defaults. A string without a default stays
empty. -/
def VariablesMap.notify (vm : VariablesMap) : BarnConf where
  primaryRsyncAddr := vm.targetAddr.getD []
  secondaryRsyncAddr := vm.backupAddr.getD []
  sourceDir := vm.source.getD []
  serviceName := vm.serviceName.getD []
  category := vm.category.getD []
  monitorPort := vm.monitorPort.getD 0
  secondsBeforeFailover := vm.secondsBeforeFailover.getD 0
  sleepSeconds := vm.sleepSeconds.getD 5
  remoteRsyncNamespace := vm.remoteRsyncNamespace.getD (text "barn_logs")
  remoteRsyncNamespaceBackup := vm.remoteRsyncNamespaceBackup.getD (text "barn_backup_logs")
  monitorMode := vm.monitorMode.getD false

/-- What the option parser throws. -/
inductive Failure where
  | exception (what : Text)
  | unknown

/-- How `parse_command_line` ends: with a configuration or with `exit(1)`, and what it has written
to `cerr`. `usage` tells whether the allowed options went to `cout`. -/
inductive Outcome where
  | returned (conf : BarnConf) (cerr : Text)
  | exited (usage : Bool) (cerr : Text)

/-- One of the options that an agent cannot do without is missing. -/
def VariablesMap.lacksRequired (vm : VariablesMap) : Bool :=
  vm.targetAddr.isNone || vm.source.isNone || vm.serviceName.isNone || vm.category.isNone

/-- The chain of checks: what it writes to `cerr`, and `show_desc`. -/
def showDesc (vm : VariablesMap) (conf : BarnConf) : Text × Bool :=
  if vm.help then
    ([], true)
  else if ¬conf.monitorMode ∧ vm.lacksRequired then
    (text "ERROR: options 'target-addr', 'source', 'service-name', 'category' are all required\n",
      true)
  else if ¬conf.monitorMode ∧ conf.monitorPort ≤ 0 then
    -- The only branch that does not reject; the two below it are not reached any more.
    (text "WARN: No monitor_port specified, metrics reporting disabled\n", false)
  else if conf.monitorMode ∧ conf.monitorPort ≤ 0 then
    (text "ERROR: option 'monitor_port' is required in monitor_mode\n", true)
  else if 0 < conf.secondsBeforeFailover ∧ vm.backupAddr.isNone then
    (text "\n", true)
  else
    ([], false)

/-- `parse_command_line`, given what the option parser does on the arguments. -/
def parseCommandLine : Except Failure VariablesMap → Outcome
  | .error (.exception what) => .exited false (text "error: " ++ what ++ text "\n")
  | .error .unknown => .exited false (text "Exception of unknown type!\n")
  | .ok vm =>
      let conf := vm.notify
      let (cerr, rejected) := showDesc vm conf
      if rejected then
        .exited true cerr
      else if conf.secondsBeforeFailover ≠ 0 ∧ conf.secondsBeforeFailover ≤ 60 then
        .exited false (cerr ++
          text "FATAL: seconds_before_failover less than one minute, " ++
          text "this would cause failovers too quickly.\n")
      else
        .returned conf cerr

/-- `create_channel_selector` on a host of the given name. It is `none` where the constructor's
assertion fails. -/
def createChannelSelector (hostName : Text) (now : Int) (barnConf : BarnConf) :
    Option (ChannelSelector AgentChannel) :=
  let primary : AgentChannel :=
    { rsyncTarget := getRsyncTarget hostName barnConf.primaryRsyncAddr
        barnConf.remoteRsyncNamespace barnConf.serviceName barnConf.category
      sourceDir := barnConf.sourceDir }
  if barnConf.secondsBeforeFailover = 0 then
    some (.single primary)
  else
    let backup : AgentChannel :=
      { rsyncTarget := getRsyncTarget hostName barnConf.secondaryRsyncAddr
          barnConf.remoteRsyncNamespaceBackup barnConf.serviceName barnConf.category
        sourceDir := barnConf.sourceDir }
    if hpos : 0 < barnConf.secondsBeforeFailover then
      some (.failover (.construct primary backup barnConf.secondsBeforeFailover hpos now))
    else
      none

/-- What the parts of the agent rely on in a configuration. -/
structure Usable (vm : VariablesMap) (conf : BarnConf) : Prop where
  required : conf.monitorMode = false →
    vm.targetAddr.isSome ∧ vm.source.isSome ∧ vm.serviceName.isSome ∧ vm.category.isSome
  interval : conf.secondsBeforeFailover = 0 ∨ 60 < conf.secondsBeforeFailover
  backup : conf.monitorMode = false → 0 < conf.secondsBeforeFailover → vm.backupAddr.isSome
  /-- A selector that fails over has the address given to fail over to. -/
  selector : conf.monitorMode = false → ∀ hostName now selector,
    createChannelSelector hostName now conf = some (.failover selector) →
      ∃ addr, vm.backupAddr = some addr ∧
        selector.secondary.rsyncTarget = getRsyncTarget hostName addr
          conf.remoteRsyncNamespaceBackup conf.serviceName conf.category
  monitor : conf.monitorMode = true → 0 < conf.monitorPort

/-- An agent is to fail over after more than a minute, without metrics and without an address to
fail over to. -/
structure SkipsBackupCheck (vm : VariablesMap) : Prop where
  help : vm.help = false
  agentMode : vm.notify.monitorMode = false
  required : vm.lacksRequired = false
  noMetrics : vm.notify.monitorPort ≤ 0
  failover : 60 < vm.notify.secondsBeforeFailover
  noBackup : vm.backupAddr = none

variable {vm : VariablesMap} {conf : BarnConf} {cerr : Text}

/-- What the chain lets through, by the branch it ends in. -/
theorem showDesc_false :
    showDesc vm conf = (cerr, false) ↔
      vm.help = false ∧
        ((conf.monitorMode = false ∧ vm.lacksRequired = false ∧ conf.monitorPort ≤ 0 ∧
            cerr = text "WARN: No monitor_port specified, metrics reporting disabled\n") ∨
          ((conf.monitorMode = false → vm.lacksRequired = false) ∧ 0 < conf.monitorPort ∧
            (0 < conf.secondsBeforeFailover → vm.backupAddr.isSome) ∧ cerr = [])) := by
  rw [showDesc]
  split_ifs with hhelp hrequired hwarn hmonitor hbackup
  · simp [hhelp]
  · simp only [Bool.not_eq_true] at hrequired
    simp [hrequired]
  · simp only [Bool.not_eq_true] at hwarn
    simp only [hwarn.1, Bool.not_eq_true, true_and] at hrequired
    have hport : ¬0 < conf.monitorPort := not_lt.2 hwarn.2
    simp only [Prod.mk.injEq, and_true, Bool.not_eq_true] at hhelp hrequired ⊢
    simp only [hhelp, hrequired, hwarn, hport, true_and, false_and, and_false, or_false]
    exact eq_comm
  · have hport : ¬0 < conf.monitorPort := not_lt.2 hmonitor.2
    simp [hmonitor.1, hport]
  · have hnone : vm.backupAddr = none := Option.isNone_iff_eq_none.1 hbackup.2
    have hport : ¬conf.monitorPort ≤ 0 := by
      cases hmode : conf.monitorMode <;> simp_all
    simp [hbackup.1, hnone, hport]
  · have hport : 0 < conf.monitorPort := by
      cases hmode : conf.monitorMode <;> simp_all
    have hgiven : 0 < conf.secondsBeforeFailover → vm.backupAddr.isSome := by
      cases haddr : vm.backupAddr <;> simp_all
    have hlisted : conf.monitorMode = false → vm.lacksRequired = false := by
      intro hmode
      simpa [hmode] using hrequired
    simp only [Bool.not_eq_true] at hhelp
    simp only [Prod.mk.injEq, and_true, hhelp, hport.not_ge, false_and, and_false, false_or,
      true_and, hport, eq_comm (a := cerr)]
    exact ⟨fun h => ⟨hlisted, hgiven, h⟩, fun h => h.2.2⟩

/-- A configuration is returned when the chain does not reject and the interval is in range. -/
theorem parseCommandLine_ok :
    parseCommandLine (.ok vm) = .returned conf cerr ↔
      conf = vm.notify ∧ showDesc vm conf = (cerr, false) ∧
        (conf.secondsBeforeFailover = 0 ∨ 60 < conf.secondsBeforeFailover) := by
  rw [parseCommandLine]
  dsimp only
  split_ifs with hrejected hinterval
  · constructor
    · simp
    · rintro ⟨rfl, hshow, -⟩
      simp [hshow] at hrejected
  · constructor
    · simp
    · rintro ⟨rfl, -, hrange⟩
      omega
  · rw [Bool.not_eq_true] at hrejected
    constructor
    · intro h
      cases h
      exact ⟨rfl, Prod.ext rfl hrejected, by omega⟩
    · rintro ⟨rfl, hshow, -⟩
      rw [hshow]

/-- A selector that fails over has the backup address of the configuration as its secondary. -/
theorem createChannelSelector_failover {hostName : Text} {now : Int} {barnConf : BarnConf}
    {selector : FailoverChannelSelector AgentChannel}
    (h : createChannelSelector hostName now barnConf = some (.failover selector)) :
    0 < barnConf.secondsBeforeFailover ∧
      selector.secondary.rsyncTarget = getRsyncTarget hostName barnConf.secondaryRsyncAddr
        barnConf.remoteRsyncNamespaceBackup barnConf.serviceName barnConf.category := by
  rw [createChannelSelector] at h
  dsimp only at h
  split_ifs at h with hzero hpos
  · simp at h
  · cases h
    exact ⟨hpos, rfl⟩

/-- A configuration that passes the checks is usable unless it passes them with a warning and
wants failover without an address. -/
theorem usable_iff (hshow : showDesc vm vm.notify = (cerr, false))
    (hinterval : vm.notify.secondsBeforeFailover = 0 ∨ 60 < vm.notify.secondsBeforeFailover) :
    Usable vm vm.notify ↔ ¬SkipsBackupCheck vm := by
  obtain ⟨hhelp, hbranch⟩ := showDesc_false.1 hshow
  constructor
  · intro husable hskips
    have hgiven := husable.backup hskips.agentMode (by have := hskips.failover; omega)
    simp [hskips.noBackup] at hgiven
  · intro hskips
    have hlisted : vm.notify.monitorMode = false → vm.lacksRequired = false := by
      obtain ⟨-, hlisted, -⟩ | ⟨hlisted, -⟩ := hbranch
      · exact fun _ => hlisted
      · exact hlisted
    have hbackup : vm.notify.monitorMode = false → 0 < vm.notify.secondsBeforeFailover →
        vm.backupAddr.isSome := by
      intro hmode hpos
      obtain ⟨-, -, hport, -⟩ | ⟨-, -, hgiven, -⟩ := hbranch
      · -- The branch that warns: no later check, so the options have to meet the condition.
        by_contra hnone
        exact hskips ⟨hhelp, hmode, hlisted hmode, hport, by omega, by simpa using hnone⟩
      · exact hgiven hpos
    refine ⟨fun hmode => ?_, hinterval, hbackup, fun hmode hostName now selector hselector => ?_,
      fun hmode => ?_⟩
    · have hall := hlisted hmode
      simp only [VariablesMap.lacksRequired, Bool.or_eq_false_iff, Option.isNone_eq_false_iff]
        at hall
      exact ⟨hall.1.1.1, hall.1.1.2, hall.1.2, hall.2⟩
    · obtain ⟨hpos, htarget⟩ := createChannelSelector_failover hselector
      obtain ⟨addr, haddr⟩ := Option.isSome_iff_exists.1 (hbackup hmode hpos)
      have hsecondary : vm.notify.secondaryRsyncAddr = addr := by
        simp [VariablesMap.notify, haddr]
      exact ⟨addr, haddr, hsecondary ▸ htarget⟩
    · obtain ⟨hagent, -⟩ | ⟨-, hport, -⟩ := hbranch
      · simp [hagent] at hmode
      · exact hport

/-- A command line with which failover goes to no address is let through. -/
theorem SkipsBackupCheck.returned (h : SkipsBackupCheck vm) :
    parseCommandLine (.ok vm) = .returned vm.notify
      (text "WARN: No monitor_port specified, metrics reporting disabled\n") :=
  parseCommandLine_ok.2 ⟨rfl,
    showDesc_false.2 ⟨h.help, .inl ⟨h.agentMode, h.required, h.noMetrics, rfl⟩⟩, .inr h.failover⟩

/-- Whatever the option parser does, the configuration returned is usable unless the command line
turns failover on in an agent without metrics and without a backup address. -/
theorem parseCommandLine_usable_iff (parsed : Except Failure VariablesMap) :
    (∀ conf cerr, parseCommandLine parsed = .returned conf cerr →
        ∃ vm, parsed = .ok vm ∧ Usable vm conf) ↔
      ∀ vm, parsed = .ok vm → ¬SkipsBackupCheck vm := by
  constructor
  · rintro h vm rfl hskips
    obtain ⟨_, hvm, husable⟩ := h _ _ hskips.returned
    cases hvm
    have hgiven := husable.backup hskips.agentMode (by have := hskips.failover; omega)
    simp [hskips.noBackup] at hgiven
  · intro h conf cerr hreturned
    cases parsed with
    | error failure => cases failure <;> simp [parseCommandLine] at hreturned
    | ok vm =>
        obtain ⟨rfl, hshow, hinterval⟩ := parseCommandLine_ok.1 hreturned
        exact ⟨vm, rfl, (usable_iff hshow hinterval).2 (h vm rfl)⟩

/-- An agent with everything but a metrics port and a backup address, told to fail over after two
minutes. -/
def noBackupAddr : VariablesMap where
  help := false
  targetAddr := some (text "destination.mydc.com:9090")
  backupAddr := none
  source := some (text "/var/log/my_service")
  serviceName := some (text "my_service")
  category := some (text "main")
  monitorPort := none
  secondsBeforeFailover := some 120
  sleepSeconds := none
  remoteRsyncNamespace := none
  remoteRsyncNamespaceBackup := none
  monitorMode := none

/-- It is accepted, and its selector fails over to a target without a host. -/
theorem noBackupAddr_accepted :
    ∃ conf cerr selector, parseCommandLine (.ok noBackupAddr) = .returned conf cerr ∧
      conf.monitorMode = false ∧ 0 < conf.secondsBeforeFailover ∧ noBackupAddr.backupAddr = none ∧
        createChannelSelector (text "host") 0 conf = some (.failover selector) ∧
        selector.secondary.rsyncTarget =
          text "rsync:///barn_backup_logs/my_service@main@host/" := by
  refine ⟨noBackupAddr.notify, _, _, SkipsBackupCheck.returned ?_, rfl, by decide, rfl, rfl, ?_⟩
  · exact ⟨rfl, rfl, rfl, by decide, by decide, rfl⟩
  · decide

end Barn.Agent.Params
