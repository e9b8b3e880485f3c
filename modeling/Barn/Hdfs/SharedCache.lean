import Barn.Hdfs.Collector
import Barn.Hdfs.NoLoss

/-!
# The listing cache of a round

The services of a round share their listings of HDFS. A listing that is cached goes stale when
another service ships, but what its own service takes from it stays the same: planning with the
cache returns what it would return without (`planNextShip_ignores_cache`), provided that the names
of the services and hosts can be told from each other and that it does not change in the round
whether a directory can be listed.
-/

namespace Barn.Hdfs

open Interaction

/-- The part of a round up to the call of `planNextShip`: the local files and how far to look
back. -/
def beforePlan (jvm : Jvm) (serviceDir : Dir) : Action (List File × DateTime) := do
  let localFiles ← listSortedLocalFiles jvm serviceDir
  let minFileDate ← Action.attempt (earliestFileDate jvm localFiles)
  let lookBack ← earliestLookbackDate jvm minFileDate maxLookBackDays
  return (localFiles, lookBack)

/-- The call of `planNextShip`. -/
def planCall (s : Setting) (looked : List File × DateTime) : Action ShippingPlan :=
  planNextShip s.jvm s.serviceDir s.serviceInfo (sumFileSizes looked.1) maxReadySize
    s.barnConf.hdfsLogDir s.barnConf.shipInterval looked.2

/-- The part of a round after the plan. -/
def afterPlan (s : Setting) (looked : List File × DateTime) (plan : ShippingPlan) :
    Action Unit := do
  let candidates ← outstandingFiles s.jvm looked.1 plan.lastTaistamp
  shipCandidates s.jvm s.barnConf s.serviceDir s.serviceInfo plan candidates

/-- A round consists of these parts. -/
theorem syncServiceDir_plans (s : Setting) :
    syncServiceDir s.jvm s.barnConf s.serviceDir =
      (beforePlan s.jvm s.serviceDir >>= fun looked =>
        planCall s looked >>= afterPlan s looked) := by
  simp only [syncServiceDir, beforePlan, s.decodes, ofListing, Action.attempt_ok_bind,
    Action.bind_assoc]
  rfl

/-- The files that the others list can be dated. -/
def OthersDatable {ι : Type} (jvm : Jvm) (thread : ι) (exchanges : List (ι × Exchange signature)) :
    Prop :=
  ∀ other dir listing, other ≠ thread →
    (other, ⟨.listFiles dir, .ok (some listing)⟩) ∈ exchanges → ∀ file ∈ listing, Datable jvm file

/-- The clock reads these times for the service, and its file system can be created. -/
structure Answers {ι : Type} (thread : ι) (clock : ClockUse → ℤ)
    (exchanges : List (ι × Exchange signature)) : Prop where
  clock : ∀ use reply, (thread, ⟨.now use, reply⟩) ∈ exchanges → reply = clock use
  connects : ∀ dir reply, (thread, ⟨.unboxLazy dir, reply⟩) ∈ exchanges → reply = .ok ()

/-- The same with an empty cache, and with all file systems created. -/
def World.uncached (world : World) : World :=
  { world with
    hdfsListCache := fun _ => none
    fileSystems := fun _ => true }

/-- The replies to the service that are counted on. -/
def expects (clock : ClockUse → ℤ) (lists : Throws (Option (List File)) → Prop) :
    (command : Command) → command.Reply → Prop
  | .now use, reply => reply = clock use
  | .unboxLazy _, reply => reply = .ok ()
  | .listFiles _, reply => lists reply
  | _, _ => True

section Cache

variable {ι : Type} [DecidableEq ι] {c : Collector ι} {thread : ι} {s : Setting}
  {clock : ClockUse → ℤ} {world : World} {exchanges : List (ι × Exchange signature)}

omit [DecidableEq ι] in
/-- These are conditions on every exchange. -/
theorem meets_of_answers {lists : Throws (Option (List File)) → Prop}
    (hothers : OthersDatable s.jvm thread exchanges) (hanswers : Answers thread clock exchanges)
    (hlists : ∀ dir reply, (thread, ⟨.listFiles dir, reply⟩) ∈ exchanges → lists reply)
    {entry : ι × Exchange signature} (hentry : entry ∈ exchanges) :
    Collector.Meets s thread (expects clock lists) entry.1 entry.2 := by
  obtain ⟨other, command, reply⟩ := entry
  refine ⟨fun hother => ?_, fun hother dir listing heq => ?_⟩
  · dsimp only at hother
    subst hother
    cases command with
    | now use => exact hanswers.clock use reply hentry
    | unboxLazy dir => exact hanswers.connects dir reply hentry
    | listFiles dir => exact hlists dir reply hentry
    | _ => trivial
  · dsimp only at heq
    rw [heq] at hentry
    exact hothers other dir listing hother hentry

/-- Planning without the cache looks at the listings themselves. -/
theorem planCall_yields_uncached_iff {looked : List File × DateTime}
    {value : Attempt ShippingPlan} :
    (∃ final, (planCall s looked).Yields clock world.uncached value final) ↔
      value = s.planAt (s.listing world) (sumFileSizes looked.1) maxReadySize looked.2
        (s.timeOf clock .planNextShip) (s.timeOf clock .enoughTimePast) := by
  constructor
  · intro h
    obtain ⟨final, hyields⟩ := h
    rcases planNextShip_yields hyields with ⟨hvalue, _⟩ | ⟨_, hdisconnected, _⟩
    · exact hvalue
    · simp [World.uncached] at hdisconnected
  · rintro rfl
    exact planNextShip_can_yield s clock (sumFileSizes looked.1) maxReadySize looked.2
      world.uncached

omit [DecidableEq ι] in
/-- Before the plan nothing is placed, whatever the replies. -/
theorem beforePlan_obeys (seen : HdfsDir → Option Listing)
    (counted : (command : Command) → command.Reply → Prop) :
    (beforePlan s.jvm s.serviceDir).Obeys (Collector.disciplines s seen thread counted thread)
      fun _ => True :=
  (Action.asks_bind (asks_listSortedLocalFiles _ _ trivial) fun _ => Action.asks_bind
    (Action.asks_attempt _) fun _ => Action.asks_bind (asks_earliestLookbackDate _ _ _ trivial)
      fun _ => Action.asks_attempt _).obeys

omit [DecidableEq ι] in
/-- The call returns the plan that is made of what is seen. -/
theorem planCall_obeys {seen : HdfsDir → Option Listing} {lookup : HdfsDir → CachedListing}
    (hlookup : s.Agrees seen lookup) (lists : Throws (Option (List File)) → Prop)
    (looked : List File × DateTime) :
    (planCall s looked).Obeys (Collector.disciplines s seen thread (expects clock lists) thread)
      (· = s.planAt lookup (sumFileSizes looked.1) maxReadySize looked.2
        (s.timeOf clock .planNextShip) (s.timeOf clock .enoughTimePast)) :=
  planNextShip_obeys hlookup (fun _ _ h => h.1 rfl) (fun _ h => h.1 rfl) _ _ _

/-- In a round with services and hosts that can be told from the service, in which it does not
change whether a directory can be listed, planning returns with the shared cache what it would
return at any moment of the call without it. -/
theorem planNextShip_ignores_cache {before calls moment : List c.rounds.Label}
    {looked : List File × DateTime} {value : Attempt ShippingPlan}
    {config config' : c.rounds.Config} {during : c.rounds.CallState (Attempt ShippingPlan)}
    (hserves : c.Serves thread s) (hapart : c.Apart thread s)
    (hbefore : c.rounds.callRun thread before (beforePlan s.jvm s.serviceDir,
      ⟨c.rounds.body, Collector.beginRound world, []⟩) =
        some (Action.attempt (.ok looked), config))
    (hcall : c.rounds.callRun thread calls (planCall s looked, config) =
      some (Action.attempt value, config'))
    (hsteady : c.Steady (before ++ calls))
    (hothers : OthersDatable s.jvm thread config'.log) (hanswers : Answers thread clock config'.log)
    (hmoment : moment <+: calls)
    (hduring : c.rounds.callRun thread moment (planCall s looked, config) = some during) :
    (∃ final, (planCall s looked).Yields clock during.2.world.uncached value final) ∧
      ∀ value' final, (planCall s looked).Yields clock during.2.world.uncached value' final →
        value' = value := by
  have hmeets : ∀ entry ∈ config'.log, Collector.Meets s thread (expects clock fun _ => True)
      entry.1 entry.2 :=
    fun entry hentry => meets_of_answers hothers hanswers (fun _ _ _ => trivial) hentry
  have hkeeps := Collector.keeps c s (s.view world) thread (expects clock fun _ => True)
  obtain ⟨rest, rfl⟩ := hmoment
  have hlater := hcall
  rw [Threads.callRun_append, hduring, Option.bind_some] at hlater
  have hlogged := (Threads.log_prefix_callRun hcall).subset
  have hloggedDuring := (Threads.log_prefix_callRun hlater).subset
  -- Up to the call and during the call the others keep what the service sees.
  have hbeginning := Collector.observed_begin hserves hapart
    (beforePlan_obeys (s.view world) (expects clock fun _ => True)) []
  obtain ⟨hsteadyBefore, hsteadyCalls⟩ := List.forall_mem_append.1 hsteady
  have hstart := hbeginning.run_of_log hkeeps hsteadyBefore hbefore fun entry hentry =>
    hmeets entry (hlogged hentry)
  have hbegin : Threads.Observed (Collector.disciplines s (s.view world) thread
      (expects clock fun _ => True)) (s.Shows (s.view world)) thread _
      (planCall s looked, config) :=
    ⟨hstart.world, hstart.others, planCall_obeys hstart.world.listing _ looked⟩
  have hmiddle := hbegin.run_of_log hkeeps (List.forall_mem_append.1 hsteadyCalls).1 hduring
    fun entry hentry => hmeets entry (hloggedDuring hentry)
  have hvalue : value = s.planAt (s.listing config.world) (sumFileSizes looked.1) maxReadySize
      looked.2 (s.timeOf clock .planNextShip) (s.timeOf clock .enoughTimePast) :=
    (hbegin.run_of_log hkeeps hsteadyCalls hcall hmeets).call
  rw [planAt_congr hmiddle.world.listing hstart.world.listing] at hvalue
  refine ⟨planCall_yields_uncached_iff.2 hvalue, fun value' final hyields => ?_⟩
  exact (planCall_yields_uncached_iff.1 ⟨final, hyields⟩).trans hvalue.symm

/-- Such a part of a round is one of a run of all its threads. -/
theorem run_of_planCall [Fintype ι] {before calls : List c.rounds.Label}
    {looked : List File × DateTime} {call : Action ShippingPlan} {config config' : c.rounds.Config}
    (hserves : c.Serves thread s)
    (hbefore : c.rounds.callRun thread before (beforePlan s.jvm s.serviceDir,
      ⟨c.rounds.body, Collector.beginRound world, []⟩) =
        some (Action.attempt (.ok looked), config))
    (hcall : c.rounds.callRun thread calls (planCall s looked, config) = some (call, config')) :
    ∃ rest, c.rounds.run (before ++ calls) ⟨c.rounds.body, Collector.beginRound world, []⟩ =
      some (Threads.resume thread rest (call, config')) := by
  obtain ⟨handle, hbody⟩ : ∃ handle, c.rounds.body thread =
      Program.bind (syncServiceDir s.jvm s.barnConf s.serviceDir) handle := by
    rw [hserves.jvm_eq, hserves.barnConf_eq, hserves.serviceDir_eq]
    exact ⟨_, rfl⟩
  rw [syncServiceDir_plans] at hbody
  obtain ⟨rest, hparts, next, hnext⟩ : ∃ rest,
      c.rounds.body thread = Program.bind (beforePlan s.jvm s.serviceDir) rest ∧
        ∃ next, rest (.ok looked) = Program.bind (planCall s looked) next :=
    ⟨_, hbody.trans (Program.bind_assoc _ _ handle), _,
      Program.bind_assoc (planCall s looked) _ handle⟩
  have hfirst : c.rounds.run before ⟨c.rounds.body, Collector.beginRound world, []⟩ =
      some (Threads.resume thread rest (Action.attempt (.ok looked), config)) :=
    (congrArg _ (Threads.resume_eq_self hparts)).symm.trans (Threads.run_resume hbefore)
  refine ⟨next, ?_⟩
  rw [Threads.run_append, hfirst, Option.bind_some]
  exact (congrArg _ (Threads.resume_done hnext)).trans (Threads.run_resume hcall)

end Cache

section Sample

/-- The clock reads this time, and the file system can be created. -/
def repliesAt (millis : ℤ) : Exchange signature → Bool
  | ⟨.now _, reply⟩ => (show ℤ from reply) == millis
  | ⟨.unboxLazy _, .error _⟩ => false
  | _ => true

/-- The files that are listed can be dated. -/
def listsDatable (jvm : Jvm) : Exchange signature → Bool
  | ⟨.listFiles _, .ok (some listing)⟩ => listing.all fun file => decide (Datable jvm file)
  | _ => true

variable {ι : Type} [DecidableEq ι] {s : Setting} {thread : ι} {millis : ℤ}
  {log : List (ι × Exchange signature)}

/-- Both can be checked. -/
theorem answers_of_all (h : log.all fun entry => entry.1 ≠ thread || repliesAt millis entry.2) :
    Answers thread (fun _ => millis) log := by
  have hreplies : ∀ exchange, (thread, exchange) ∈ log → repliesAt millis exchange = true := by
    intro exchange hexchange
    simpa using List.all_eq_true.1 h _ hexchange
  refine ⟨fun use reply hreply => eq_of_beq (hreplies _ hreply), fun dir reply hreply => ?_⟩
  cases reply with
  | ok _ => rfl
  | error throwable => exact absurd (hreplies _ hreply) (by simp [repliesAt])

theorem othersDatable_of_all {jvm : Jvm}
    (h : log.all fun entry => entry.1 = thread || listsDatable jvm entry.2) :
    OthersDatable jvm thread log := by
  intro other dir listing hother hreply file hfile
  have hlists := List.all_eq_true.1 h _ hreply
  simp only [hother, decide_false, Bool.false_or] at hlists
  exact of_decide_eq_true (List.all_eq_true.1 hlists file hfile)

/-- Two service directories, of which one is observed. -/
def Collector.pair (observed other : Dir) : Collector Bool where
  jvm := .utc
  barnConf := Setting.sample.barnConf
  serviceDir := fun thread => if thread then observed else other

/-- A small file that was received a minute ago. -/
def minuteFile (dir : Dir) : File :=
  ⟨dir, text "@4000000053724e0100000000.s", false, 10⟩

/-- Each of the directories has such a file. -/
def World.ofPair (observed other : Dir) : World :=
  ((World.initial 1400000000000).receive (minuteFile observed)).receive (minuteFile other)

/-- The other directory is acted on, and then the observed one up to its plan. -/
def Collector.shipFirst (c : Collector Bool) : List c.rounds.Label :=
  c.answers false (smoothOutcomes 1400000000000 1 (text "combined") (text "random")) ++
    c.answers true [.ok, .reads 1400000000000]

/-- The plan is made of a listing that is cached. -/
def Collector.planCached (c : Collector Bool) : List c.rounds.Label :=
  c.answers true [.reads 1400000000000, .ok]

/-- Execute a round of the pair up to the plan of the observed service, and check the outcome. -/
def Collector.planPair (c : Collector Bool) (s : Setting) (world : World)
    (check : List File × DateTime → c.rounds.Config → Attempt ShippingPlan → Bool) : Bool :=
  match c.rounds.callRun true c.shipFirst (beforePlan s.jvm s.serviceDir,
      ⟨c.rounds.body, beginRound world, []⟩) with
  | some (.done (.ok looked), config) =>
      match c.rounds.callRun true c.planCached (planCall s looked, config) with
      | some (.done value, config') => check looked config' value
      | _ => false
  | _ => false

/-- The states of a round that was executed. -/
theorem exists_planCall {c : Collector Bool} {s : Setting} {world : World}
    {check : List File × DateTime → c.rounds.Config → Attempt ShippingPlan → Bool}
    (h : c.planPair s world check = true) :
    ∃ looked config value config', c.rounds.callRun true c.shipFirst
        (beforePlan s.jvm s.serviceDir, ⟨c.rounds.body, Collector.beginRound world, []⟩) =
          some (Action.attempt (.ok looked), config) ∧
      c.rounds.callRun true c.planCached (planCall s looked, config) =
        some (Action.attempt value, config') ∧ check looked config' value = true := by
  unfold Collector.planPair at h
  split at h
  · next looked config hbefore =>
      split at h
      · next value config' hcall => exact ⟨looked, config, value, config', hbefore, hcall, h⟩
      · simp at h
  · simp at h

/-- The services `web` of `node1` and of `node2`. -/
def nodesPair : Collector Bool :=
  .pair Setting.sample.serviceDir (text "/local/logs/web@main@node2")

theorem apart_nodesPair : nodesPair.Apart true .sample := by
  intro other hother info hinfo
  obtain rfl : other = false := Bool.eq_false_of_not_eq_true hother
  have hnode : decodeServiceInfo (nodesPair.serviceDir false) = .ok ⟨text "web", text "node2"⟩ := by
    decide
  obtain rfl := Except.ok.inj (hnode.symm.trans hinfo)
  exact ⟨by decide, by decide, by decide, by decide⟩

/-- The round is one that is looked at, and the listing that is cached does not show the file of the
other service. -/
def staleCache (s : Setting) (config : nodesPair.rounds.Config) : Bool :=
  config.log.all (fun entry => entry.1 ≠ true || repliesAt 1400000000000 entry.2) &&
    config.log.all (fun entry => entry.1 = true || listsDatable s.jvm entry.2) &&
    (config.world.entries (text "/logs/2014/05-13")).length = 1 &&
    config.world.hdfsListCache (text "/logs/2014/05-13") =
      some (.error (.fileNotFound (text "Path /logs/2014/05-13 doesn't exist to list")))

/-- The listing that is cached does not show the file of `node2`, and the plan is the same. -/
theorem planNextShip_ignores_cache_nodes : ∃ looked config value config',
    nodesPair.rounds.callRun true nodesPair.shipFirst
        (beforePlan Setting.sample.jvm Setting.sample.serviceDir, ⟨nodesPair.rounds.body,
          Collector.beginRound (.ofPair (nodesPair.serviceDir true) (nodesPair.serviceDir false)),
            []⟩) = some (Action.attempt (.ok looked), config) ∧
      nodesPair.rounds.callRun true nodesPair.planCached (planCall .sample looked, config) =
        some (Action.attempt value, config') ∧
      staleCache .sample config' = true ∧
      value = .ok ⟨text "/logs/2014/05-13", text "/logs/tmp", none⟩ ∧
      ∃ final, (planCall .sample looked).Yields (fun _ => 1400000000000) config'.world.uncached
        value final := by
  have hexecuted : nodesPair.planPair .sample
      (.ofPair (nodesPair.serviceDir true) (nodesPair.serviceDir false)) (fun _ config value =>
        staleCache .sample config &&
          value = .ok ⟨text "/logs/2014/05-13", text "/logs/tmp", none⟩) = true := rfl
  obtain ⟨looked, config, value, config', hbefore, hcall, hcheck⟩ := exists_planCall hexecuted
  rw [Bool.and_eq_true, decide_eq_true_eq] at hcheck
  obtain ⟨hstale, hvalue⟩ := hcheck
  refine ⟨looked, config, value, config', hbefore, hcall, hstale, hvalue, ?_⟩
  simp only [staleCache, Bool.and_eq_true] at hstale
  have hserves : nodesPair.Serves true .sample := ⟨rfl, rfl, rfl⟩
  exact (planNextShip_ignores_cache hserves apart_nodesPair hbefore hcall (by decide)
    (othersDatable_of_all hstale.1.1.2) (answers_of_all hstale.1.1.1) List.prefix_rfl hcall).1

/-- The round is one that is looked at, and the plan is another one without the cache. -/
def Collector.planDiffers (c : Collector Bool) (s : Setting) (looked : List File × DateTime)
    (config : c.rounds.Config) (value : Attempt ShippingPlan) : Bool :=
  config.log.all (fun entry => entry.1 ≠ true || repliesAt 1400000000000 entry.2) &&
    s.planAt (s.listing config.world) (sumFileSizes looked.1) maxReadySize looked.2
        (s.timeOf (fun _ => 1400000000000) .planNextShip)
        (s.timeOf (fun _ => 1400000000000) .enoughTimePast) ≠ value

/-- In a round of the pair that starts here the service is planned otherwise with the cache than
without. -/
structure Collector.Misled (c : Collector Bool) (s : Setting) (world : World) : Prop where
  plans : ∃ looked config value config', c.rounds.callRun true c.shipFirst
      (beforePlan s.jvm s.serviceDir, ⟨c.rounds.body, beginRound world, []⟩) =
        some (Action.attempt (.ok looked), config) ∧
    c.rounds.callRun true c.planCached (planCall s looked, config) =
      some (Action.attempt value, config') ∧
    Answers true (fun _ => 1400000000000) config'.log ∧
    ∃ value' final, (planCall s looked).Yields (fun _ => 1400000000000) config'.world.uncached
      value' final ∧ value' ≠ value

/-- Such a round can be executed. -/
theorem misled_of_planPair {c : Collector Bool} {s : Setting} {world : World}
    (h : c.planPair s world (c.planDiffers s) = true) : c.Misled s world := by
  obtain ⟨looked, config, value, config', hbefore, hcall, hcheck⟩ := exists_planCall h
  rw [Collector.planDiffers, Bool.and_eq_true, decide_eq_true_eq] at hcheck
  obtain ⟨hanswers, hdiffers⟩ := hcheck
  obtain ⟨final, hyields⟩ := planCall_yields_uncached_iff.2 rfl
  exact ⟨looked, config, value, config', hbefore, hcall, answers_of_all hanswers, _, final,
    hyields, hdiffers⟩

/-- The services `a,b` of `c` and `a` of `b,c`. -/
def commasPair : Collector Bool :=
  .pair Setting.commas.serviceDir (text "/local/logs/a@main@b,c")

/-- The service `web` of `node1`, and a service of `node2` whose name has a line terminator. -/
def linesPair : Collector Bool :=
  .pair Setting.sample.serviceDir (text "/local/logs/a\nb@main@node2")

/-- A file whose name goes on in a new line after the label. -/
def brokenFile (dir : Dir) : File :=
  ⟨dir, text "@4000000053724e0100000000\n.s", false, 10⟩

/-- A file of the year 12000. -/
def farFile (dir : Dir) : File :=
  ⟨dir, text "@40000049b3a7ef0000000000.s", false, 10⟩

/-- The pairs of the services differ, but the listing that is cached does not show what the other
one has placed, and its name reads back as one of the service or cannot be read: if the names of the
services join to the same, if the other one has a line terminator in its name, and if it ships a
file with an odd label or of a far year. -/
theorem planNextShip_misled_by_cache :
    (decodeServiceInfo (commasPair.serviceDir true) = .ok ⟨text "a,b", text "c"⟩ ∧
      decodeServiceInfo (commasPair.serviceDir false) = .ok ⟨text "a", text "b,c"⟩ ∧
      commasPair.Misled .commas
        (.ofPair (commasPair.serviceDir true) (commasPair.serviceDir false))) ∧
    (decodeServiceInfo (linesPair.serviceDir true) = .ok ⟨text "web", text "node1"⟩ ∧
      decodeServiceInfo (linesPair.serviceDir false) = .ok ⟨text "a\nb", text "node2"⟩ ∧
      linesPair.Misled .sample
        (.ofPair (linesPair.serviceDir true) (linesPair.serviceDir false))) ∧
    (decodeServiceInfo (nodesPair.serviceDir true) = .ok ⟨text "web", text "node1"⟩ ∧
      decodeServiceInfo (nodesPair.serviceDir false) = .ok ⟨text "web", text "node2"⟩ ∧
      ∀ file ∈ [brokenFile (nodesPair.serviceDir false), farFile (nodesPair.serviceDir false)],
        nodesPair.Misled .sample (((World.initial 1400000000000).receive
          (minuteFile (nodesPair.serviceDir true))).receive file)) := by
  refine ⟨⟨by decide, by decide, misled_of_planPair rfl⟩,
    ⟨by decide, by decide, misled_of_planPair rfl⟩, by decide, by decide, fun file hfile => ?_⟩
  rcases List.mem_pair.1 hfile with rfl | rfl <;> exact misled_of_planPair rfl

end Sample

end Barn.Hdfs
