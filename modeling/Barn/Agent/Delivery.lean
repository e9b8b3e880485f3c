import Barn.Agent.Target

/-!
# Delivery to a target

`AgentStep` says what an agent may do to its feed, `follows_dispatchNewLogs` that a round does
nothing else whatever happens between its requests, and `delivery_inOrder` what follows for every
interleaving of rounds, svlogd and cleanups.
-/

namespace Barn.Agent.Delivery

open Interaction Relation

variable {place : Place} {world world' after : World}

variable (place) in
/-- What the agent does to the feed: nothing but choose a channel or deliver the file that is
next. -/
inductive AgentStep (world : World) : World → Prop where
  | select (selector : ChannelSelector AgentChannel) :
      ReadsSource place selector → AgentStep world { world with selector := selector }
  | deliver (name : Text) (length : ℕ) :
      world.feed.Next name → AgentStep world (world.deliver place name length)

variable (place) in
/-- An agent amid these events. -/
abbrev contract : Contract (machine place) Unit where
  rely := fun world world' => ∃ event, occurs place event world = some world'
  allowed := fun _ _ _ => True
  step := fun state state' => AgentStep place state.2 state'.2

variable (place) in
/-- An agent amid surroundings that may do this. -/
abbrev contractAmid (rely : World → World → Prop) : Contract (machine place) Unit where
  rely := rely
  allowed := fun _ _ _ => True
  step := fun state state' => AgentStep place state.2 state'.2

variable (place) in
/-- What the surroundings may do keeps everything in order and delivers nothing. -/
def Tolerable (rely : World → World → Prop) : Prop :=
  ∀ world world', world.Sound place → rely world world' →
    world'.Sound place ∧ world.feed.Later world'.feed

theorem tolerable_occurs : Tolerable place (contract place).rely := by
  intro world world' h hrely
  obtain ⟨event, hoccurs⟩ := hrely
  exact h.occurs hoccurs

variable (place) in
/-- Everything is in order, and these files are left to ship. -/
def Ready (candidates : List Text) (world : World) : Prop :=
  world.Sound place ∧ world.feed.Pending candidates

theorem AgentStep.sound (h : AgentStep place world world') (hsound : world.Sound place) :
    world'.Sound place := by
  cases h with
  | select selector hselector => exact { hsound with selector := hselector }
  | deliver name length hnext => exact hsound.deliver hnext length

section Follows

variable {channel : AgentChannel} {candidates : List Text} {phase : Unit}
  {rely : World → World → Prop} (htolerable : Tolerable place rely)
include htolerable

theorem stable_sound : (contractAmid place rely).Stable (World.Sound place) :=
  fun world world' h hrely => (htolerable world world' h hrely).1

theorem stable_ready (candidates : List Text) :
    (contractAmid place rely).Stable (Ready place candidates) := by
  intro world world' h hrely
  obtain ⟨hsound, hlater⟩ := htolerable world world' h.1 hrely
  exact ⟨hsound, h.2.later hsound.feed hlater⟩

theorem stable_listed (listing : List Text) :
    (contractAmid place rely).Stable fun world =>
      world.Sound place ∧ world.feed.Listed listing := by
  intro world world' h hrely
  obtain ⟨hsound, hlater⟩ := htolerable world world' h.1 hrely
  exact ⟨hsound, h.2.after h.1.feed hsound.feed hlater⟩

omit htolerable in
/-- Nothing is left to ship. -/
theorem ready_nil (h : world.Sound place) : Ready place [] world :=
  ⟨h, .nil⟩

/-- Harmless requests leave what is to be shipped. -/
theorem follows_of_asks {α : Type} {program : Routine α} (hasks : program.Asks (Harmless place))
    (h : Ready place candidates world) :
    Follows (contractAmid place rely) (fun _ _ world => Ready place candidates world) program phase
      world := by
  induction program generalizing world with
  | done value => exact Follows.done (stable_ready htolerable candidates) h
  | request command next ih =>
      refine Follows.request (stable_ready htolerable candidates) h ?_
      intro world h outcome reply after _ hanswer
      rcases answer_harmless hasks.1 hanswer with rfl | ⟨selector, hreads, rfl⟩
      · exact ⟨phase, .refl, ih reply (hasks.2 reply) h⟩
      · have hselector := hreads h.1.selector
        refine ⟨phase, .single (.select selector hselector), ih reply (hasks.2 reply) ?_⟩
        exact ⟨{ h.1 with selector := hselector }, h.2⟩

omit htolerable in
theorem asks_sleepIt (barnConf : BarnConf) : (sleepIt barnConf).Asks (Harmless place) := by
  rw [sleepIt]
  split
  · exact ⟨trivial, fun _ => ⟨trivial, fun _ => trivial⟩⟩
  · exact trivial

omit htolerable in
/-- Shipping to another target is harmless. -/
theorem asks_shipEach (hother : channel.rsyncTarget ≠ place.rsyncTarget) (counters : Counters)
    (candidates : List Text) : (shipEach channel counters candidates).Asks (Harmless place) := by
  induction candidates generalizing counters with
  | nil => exact trivial
  | cons el rest ih =>
      refine ⟨hother, fun shipped => ?_⟩
      cases shipped with
      | true => exact ih _
      | false =>
          refine ⟨trivial, fun present => ?_⟩
          cases present with
          | true => exact trivial
          | false => exact ih _

/-- A metric is sent on the way. -/
theorem follows_sendMetric {α : Type} {key : Text} {value : Int} {rest : Unit → Routine α}
    {post : α → Unit → World → Prop} (h : Ready place candidates world)
    (hrest : ∀ world, Ready place candidates world →
      Follows (contractAmid place rely) post (rest ()) phase world) :
    Follows (contractAmid place rely) post ((sendMetric key value).bind rest) phase world := by
  have hasks : (sendMetric key value).Asks (Harmless place) := ⟨trivial, fun _ => trivial⟩
  exact (follows_of_asks htolerable hasks h).bind fun _ _ world h => hrest world h

variable (place) in
/-- What is known when the candidates of a channel are. -/
def Queried (channel : AgentChannel) (result : Validation (List Text)) (world : World) : Prop :=
  world.Sound place ∧ ∀ candidates, channel.rsyncTarget = place.rsyncTarget →
    result = .ok candidates → world.feed.Pending candidates

theorem stable_queried (result : Validation (List Text)) :
    (contractAmid place rely).Stable (Queried place channel result) := by
  intro world world' h hrely
  obtain ⟨hsound, hlater⟩ := htolerable world world' h.1 hrely
  refine ⟨hsound, fun candidates htarget hok => ?_⟩
  exact (h.2 candidates htarget hok).later hsound.feed hlater

/-- The candidates of a round that ships to the target are pending. -/
theorem follows_queryCandidates (channel : AgentChannel) (h : world.Sound place) :
    Follows (contractAmid place rely) (fun result _ world => Queried place channel result world)
      (queryCandidates channel) phase world := by
  refine Follows.request (stable_sound htolerable) h ?_
  intro world h outcome existingFiles after _ hanswer
  obtain ⟨rfl, hlisted⟩ := answer_listLogDirectory h hanswer
  refine ⟨phase, .refl, ?_⟩
  refine Follows.request (stable_listed htolerable existingFiles) ⟨h, hlisted⟩ ?_
  intro world h outcome filesNotOnServer after _ hanswer
  obtain ⟨rfl, hpending⟩ := answer_logFilesNotOnTarget h.1 h.2 hanswer
  refine ⟨phase, .refl, ?_⟩
  cases filesNotOnServer with
  | error err =>
      refine follows_sendMetric htolerable (ready_nil h.1) fun world h => ?_
      exact Follows.done (stable_queried htolerable _) ⟨h.1, by simp⟩
  | ok filesNotOnServer =>
      simp only
      split
      · refine Follows.done (stable_queried htolerable _) ⟨h.1, fun candidates _ hok => ?_⟩
        rw [← Except.ok.inj hok]
        exact .nil
      · have hready : ∃ pending, Ready place pending after ∧
            (channel.rsyncTarget = place.rsyncTarget →
              pending = tailIntersection existingFiles filesNotOnServer) := by
          -- A round on the backup channel has nothing pending on this target.
          by_cases htarget : channel.rsyncTarget = place.rsyncTarget
          · exact ⟨_, ⟨h.1, hpending htarget _ rfl⟩, fun _ => rfl⟩
          · exact ⟨[], ready_nil h.1, fun heq => absurd heq htarget⟩
        obtain ⟨pending, hready, heq⟩ := hready
        have hdone : ∀ world, Ready place pending world → Follows (contractAmid place rely)
            (fun result _ world => Queried place channel result world)
            (.done (.ok (tailIntersection existingFiles filesNotOnServer))) phase world := by
          intro world h
          refine Follows.done (stable_queried htolerable _) ⟨h.1, ?_⟩
          intro candidates htarget hok
          rw [← Except.ok.inj hok, ← heq htarget]
          exact h.2
        refine follows_sendMetric htolerable hready fun world h => ?_
        split
        · exact follows_sendMetric htolerable h hdone
        · exact hdone world h

/-- The loop delivers what is pending, one file after the other. -/
theorem follows_shipEach (hsource : channel.sourceDir = place.sourceDir)
    (htarget : channel.rsyncTarget = place.rsyncTarget) (counters : Counters)
    (h : Ready place candidates world) :
    Follows (contractAmid place rely) (fun _ _ world => world.Sound place)
      (shipEach channel counters candidates) phase world := by
  induction candidates generalizing counters world with
  | nil => exact Follows.done (stable_sound htolerable) h.1
  | cons el rest ih =>
      rw [shipEach, hsource, htarget]
      refine Follows.request (stable_ready htolerable _) h ?_
      intro world h outcome shipped after _ hanswer
      rcases answer_shipFile hanswer with ⟨rfl, rfl⟩ | ⟨length, hmem, rfl⟩
      · -- Nothing has arrived: the loop goes on only if the file has been deleted.
        refine ⟨phase, .refl, Follows.request (stable_ready htolerable _) h ?_⟩
        intro world h outcome present after _ hanswer
        obtain ⟨rfl, hgone⟩ := answer_fileExists hanswer
        refine ⟨phase, .refl, ?_⟩
        cases present with
        | true => exact Follows.done (stable_sound htolerable) h.1
        | false => exact ih _ ⟨h.1, h.2.lost (hgone rfl)⟩
      · have hlog := h.1.svlogd el (h.2.created el List.mem_cons_self)
        have hkept : el ∈ world.feed.kept :=
          (List.mem_append.1 hmem).resolve_right fun hother => h.1.otherFiles el hother hlog
        have hnext := h.2.next hkept
        have hrest : Ready place rest (world.deliver place el length) :=
          ⟨h.1.deliver hnext length, h.2.delivered⟩
        refine ⟨phase, .single (.deliver el length hnext), ?_⟩
        cases shipped with
        | true => exact ih _ hrest
        | false =>
            -- The ship failed after the file had arrived.
            refine Follows.request (stable_ready htolerable _) hrest ?_
            intro world h outcome present after _ hanswer
            obtain ⟨rfl, _⟩ := answer_fileExists hanswer
            refine ⟨phase, .refl, ?_⟩
            cases present with
            | true => exact Follows.done (stable_sound htolerable) h.1
            | false => exact ih _ h

/-- Shipping the candidates of a round keeps everything in order. -/
theorem follows_shipCandidates (hsource : channel.sourceDir = place.sourceDir)
    (h : Queried place channel (.ok candidates) world) :
    Follows (contractAmid place rely) (fun _ _ world => world.Sound place)
      (shipCandidates channel candidates) phase world := by
  rw [shipCandidates]
  generalize toInt candidates.length = candidatesSize
  by_cases hnone : candidatesSize = 0
  · rw [if_pos hnone]
    exact Follows.done (stable_sound htolerable) h.1
  · rw [if_neg hnone]
    have hloop : Follows (contractAmid place rely) (fun _ _ world => world.Sound place)
        (shipEach channel ⟨0, 0⟩ candidates.mergeSort) phase world := by
      by_cases htarget : channel.rsyncTarget = place.rsyncTarget
      · have hpending := h.2 candidates htarget rfl
        rw [List.mergeSort_eq_self (· ≤ ·) (hpending.sorted.imp le_of_lt)]
        exact follows_shipEach htolerable hsource htarget _ ⟨h.1, hpending⟩
      · have hasks := asks_shipEach htarget ⟨0, 0⟩ candidates.mergeSort
        exact (follows_of_asks htolerable hasks (ready_nil h.1)).mono fun _ _ _ h => h.1
    refine hloop.bind fun counters _ world h => ?_
    refine (follows_of_asks htolerable ?_ (ready_nil h)).mono fun _ _ _ h => h.1
    refine ⟨trivial, fun _ => ⟨trivial, fun _ => ⟨trivial, fun currentLogs => ?_⟩⟩⟩
    have hreturn : (if counters.numShipped = 0 then
        pure (.error (text "Failed to ship any logs")) else pure (.ok counters.numShipped) :
        Routine (Validation Int)).Asks (Harmless place) := by
      split <;> exact trivial
    have hrotated : ∀ number (rest : Unit → Routine (Validation Int)),
        (∀ value, (rest value).Asks (Harmless place)) →
        (if number ≠ 0 then sendMetric rotatedDuringShip number >>= rest
          else rest ()).Asks (Harmless place) := by
      intro number rest hrest
      split
      · exact ⟨trivial, hrest⟩
      · exact hrest ()
    exact hrotated _ _ fun _ => hreturn

attribute [local irreducible] shipCandidates

/-- A round keeps everything in order, whatever happens between its requests. -/
theorem follows_dispatchNewLogs (barnConf : BarnConf) (h : world.Sound place) :
    Follows (contractAmid place rely) (fun _ _ world => world.Sound place)
      (dispatchNewLogs barnConf) phase world := by
  have hsleep : ∀ world : World, world.Sound place →
      Follows (contractAmid place rely) (fun _ _ world => world.Sound place) (sleepIt barnConf)
        phase world :=
    fun world h =>
      (follows_of_asks htolerable (asks_sleepIt barnConf) (ready_nil h)).mono fun _ _ _ h => h.1
  refine Follows.request (stable_sound htolerable) h ?_
  intro world h outcome channel after _ hanswer
  obtain ⟨hsource, selector, hselector, rfl⟩ := answer_pickChannel h hanswer
  have hsound : World.Sound place { world with selector := selector } :=
    { h with selector := hselector }
  refine ⟨phase, .single (.select selector hselector), ?_⟩
  refine (follows_queryCandidates htolerable channel hsound).bind fun logsToShip phase world h => ?_
  cases logsToShip with
  | error err => exact hsleep world h.1
  | ok candidates =>
      dsimp only
      rw [Program.bind_eq]
      refine (follows_shipCandidates htolerable hsource h).bind fun numShipped _ world h => ?_
      cases numShipped with
      | error err => exact hsleep world h
      | ok numShipped =>
          refine (follows_of_asks htolerable ?_ (ready_nil h)).mono fun _ _ _ h => h.1
          simp only
          split
          · exact (asks_sleepIt barnConf).bind fun _ => ⟨trivial, fun _ => trivial⟩
          · exact ⟨trivial, fun _ => ⟨trivial, fun _ => trivial⟩⟩

end Follows

/-- In the beginning everything is in order. -/
theorem Initial.sound (h : Initial place world) : world.Sound place where
  feed :=
    { created_sorted := h.created_sorted
      kept_suffix := h.kept_suffix
      delivered_sorted := by simp [h.delivered_eq]
      delivered_created := by simp [h.delivered_eq]
      noGap := by simp [h.delivered_eq] }
  svlogd := h.created_svlogd
  otherFiles := h.otherFiles
  selector := by
    obtain ⟨hostName, now, conf, hsource, hselector⟩ := h.selector
    exact readsSource_createChannelSelector hselector hsource
  placed := by simp [World.placedNames, h.targetDir_empty]
  parent := by simp [h.targetDir_empty]
  newest := by simp [h.delivered_eq]
  careful := by simp [h.cleanups_eq]

/-- Everything is in order after every interleaving of rounds, svlogd and cleanups. -/
theorem sound_of_run {barnConf : BarnConf} {labels : List (rounds place barnConf).Label}
    {program : Routine Unit} (hinitial : Initial place world)
    (hrun : (rounds place barnConf).run labels (.done (), world) = some (program, world')) :
    world'.Sound place := by
  have hadmits : (rounds place barnConf).Admits (fun _ _ => True) labels (.done (), world) :=
    Rounds.admits_of_forall (fun _ _ => trivial) _
  have hevent : ∀ event (program : Routine Unit) world world', True →
      (rounds place barnConf).occurs event world = some world' →
      (contract place).rely world world' ∧ (contract place).rely world world' :=
    fun event _ _ _ _ hoccurs => ⟨⟨event, hoccurs⟩, ⟨event, hoccurs⟩⟩
  have hbegin : ∀ (value : Unit) phase world, True → world.Sound place →
      ∃ phase', (phase', (rounds place barnConf).begin world) = (phase, world) ∧
        Follows (contract place) (fun _ _ world => world.Sound place) (rounds place barnConf).body
          phase' ((rounds place barnConf).begin world) :=
    fun _ _ _ _ h => ⟨(), rfl, follows_dispatchNewLogs tolerable_occurs barnConf h⟩
  have hdone : Follows (contract place) (fun _ _ world => world.Sound place) (.done ()) () world :=
    Follows.done (stable_sound tolerable_occurs) hinitial.sound
  obtain ⟨phase, hsteps, _⟩ :=
    Rounds.run_follows hevent (fun _ _ _ _ _ => trivial) hbegin hadmits hdone hrun
  refine Rounds.SystemStep.invariant
    (motive := fun state : Unit × World => state.2.Sound place) ?_ ?_ ?_ hsteps hinitial.sound
  · intro _ world world' hhappens h
    exact stable_sound tolerable_occurs world world' h hhappens
  · intro state state' hrestart h
    obtain rfl := hrestart
    exact h
  · intro state state' hstep h
    exact hstep.sound h

/-- Files reach the target in strictly increasing order, and of the files that are older than the
newest one there, all were delivered that svlogd had not deleted before. -/
theorem delivery_inOrder {barnConf : BarnConf} {labels : List (rounds place barnConf).Label}
    {program : Routine Unit} (hinitial : Initial place world)
    (hrun : (rounds place barnConf).run labels (.done (), world) = some (program, world')) :
    world'.feed.delivered.Pairwise (· < ·) ∧
      ∀ newest ∈ world'.feed.delivered, ∀ file ∈ world'.feed.created, file < newest →
        file ∈ world'.feed.delivered ∨ file ∉ world'.feed.kept := by
  have h := (sound_of_run hinitial hrun).feed
  exact ⟨h.delivered_sorted, h.noGap⟩

section Sample

/-- One agent of the service `web`, and the directory on the collector that it fills. -/
def Place.sample : Place where
  sourceDir := text "/var/log/web"
  rsyncTarget := text "rsync://collector/barn_logs/web@main@node1/"
  targetDir := text "/local/logs/web@main@node1"

/-- The configuration of that agent. -/
def sampleConf : Params.BarnConf where
  sleepSeconds := 0
  primaryRsyncAddr := text "collector"
  secondaryRsyncAddr := []
  sourceDir := text "/var/log/web"
  serviceName := text "web"
  category := text "main"
  monitorMode := false
  monitorPort := 0
  secondsBeforeFailover := 0
  remoteRsyncNamespace := text "barn_logs"
  remoteRsyncNamespaceBackup := []

/-- The channel of that agent. -/
def sampleChannel : AgentChannel where
  sourceDir := text "/var/log/web"
  rsyncTarget := text "rsync://collector/barn_logs/web@main@node1/"

/-- The state before svlogd has written anything. -/
def World.sample : World where
  feed := ⟨[], [], []⟩
  otherFiles := [text "current", text "lock"]
  selector := .single sampleChannel
  collector := .initial 0
  cleanups := []

theorem initial_sample : Initial Place.sample World.sample where
  created_sorted := .nil
  created_svlogd := by simp [World.sample]
  kept_suffix := List.suffix_rfl
  delivered_eq := rfl
  otherFiles := by decide
  selector := ⟨text "node1", 0, sampleConf, rfl, rfl⟩
  targetDir_empty := rfl
  cleanups_eq := rfl

/-- A log file. -/
def sampleName : Text :=
  text "@4000000053724e0000000000.s"

/-- A second later another log file. -/
def laterName : Text :=
  text "@4000000053724e0100000000.s"

/-- A log file of the next day. -/
def lastName : Text :=
  text "@4000000053739f8000000000.s"

/-- The files are created and listed, and the dry run prints them. -/
def sampleQuery : List (rounds Place.sample ⟨0⟩).Label :=
  [.event (.create sampleName), .event (.create laterName), .event (.create lastName), .start,
    .answer (.reads 0), .answer .ok,
    .answer (.rsync 0 (text "sending incremental file list\n" ++ sampleName ++ text "\n" ++
      laterName ++ text "\n" ++ lastName)), .answer .ok, .answer .ok]

/-- The first file arrives, svlogd deletes it, and the second one arrives. -/
def sampleShip : List (rounds Place.sample ⟨0⟩).Label :=
  [.answer (.transfer 0 (some 1)), .event .rotate, .answer (.transfer 0 (some 1))]

/-- A cleanup deletes the first file on the target. -/
def sampleCleanup : List (rounds Place.sample ⟨0⟩).Label :=
  [.event (.cleanup .utc ⟨1399999966000, .utc⟩ 0), .event (.answerCleanup 0 .ok),
    .event (.answerCleanup 0 .ok)]

/-- The world after two of the ships. -/
def World.shipped : World where
  feed := ⟨[sampleName, laterName, lastName], [laterName, lastName], [sampleName, laterName]⟩
  otherFiles := World.sample.otherFiles
  selector := World.sample.selector
  collector :=
    (World.sample.collector.receive ⟨Place.sample.targetDir, sampleName, false, 1⟩).receive
      ⟨Place.sample.targetDir, laterName, false, 1⟩
  cleanups := []

/-- The files are shipped in their order. -/
theorem sampleShip_spec : ∃ program, (rounds Place.sample ⟨0⟩).run (sampleQuery ++ sampleShip)
    (.done (), .sample) = some (program, .shipped) := by
  obtain ⟨rest, hquery⟩ : ∃ rest, (rounds Place.sample ⟨0⟩).run sampleQuery (.done (), .sample) =
      some ((shipCandidates sampleChannel [sampleName, laterName, lastName]).bind rest,
        { World.sample with feed :=
          ⟨[sampleName, laterName, lastName], [sampleName, laterName, lastName], []⟩ }) :=
    ⟨_, rfl⟩
  have hsorted : [sampleName, laterName, lastName].mergeSort = [sampleName, laterName, lastName] :=
    List.mergeSort_of_pairwise (by decide)
  rw [Rounds.run_append, hquery, Option.bind_some, shipCandidates, hsorted]
  exact ⟨_, rfl⟩

/-- Two files have arrived; the second one is still on the target. -/
def arrivesInTurn (config : (rounds Place.sample ⟨0⟩).Config) : Bool :=
  config.2.feed.delivered = [sampleName, laterName] && config.2.feed.kept = [laterName, lastName] &&
    config.2.placedNames Place.sample = [laterName]

set_option maxRecDepth 1000 in
/-- The files have arrived in order. -/
theorem delivery_inOrder_sample : ∃ program world',
    (rounds Place.sample ⟨0⟩).run (sampleQuery ++ sampleShip ++ sampleCleanup)
        (.done (), .sample) = some (program, world') ∧
      arrivesInTurn (program, world') = true ∧ world'.feed.delivered.Pairwise (· < ·) := by
  obtain ⟨program, hships⟩ := sampleShip_spec
  have hexecuted : ((rounds Place.sample ⟨0⟩).run (sampleQuery ++ sampleShip ++ sampleCleanup)
      (.done (), .sample)).any arrivesInTurn = true := by
    rw [Rounds.run_append, hships, Option.bind_some]
    rfl
  obtain ⟨⟨program, world'⟩, hrun, harrives⟩ := (Option.any_eq_true _ _).1 hexecuted
  exact ⟨program, world', hrun, harrives, (delivery_inOrder initial_sample hrun).1⟩

end Sample
end Barn.Agent.Delivery
