import Barn.Agent.Delivery
import Barn.Hdfs.NoLoss
import Barn.Interaction.Couple

/-!
# From svlogd to HDFS

An agent and a collector as one system: the agent ships the log files of one directory to the
service directory of the collector, whose rounds put them on HDFS. `Intact` is the invariant of both
together; the main result is `log_accounted`, about every interleaving of svlogd, the rounds of the
agent, the rounds of the collector and what happens elsewhere.
-/

namespace Barn.Pipeline

open Interaction Relation
open Agent.Delivery (Place World Superseded)

/-- The directory and the target of an agent, and the service directory behind the target. -/
structure Site where
  place : Place
  setting : Hdfs.Setting
  targetDir_eq : place.targetDir = setting.serviceDir

namespace Site

variable (site : Site) (offset : ℤ) (barnConf : Agent.BarnConf)

/-- The rounds of the agent and those of the collector, which share the collector's world. -/
def couple : Couple (Agent.Delivery.machine site.place) Hdfs.machine Unit (Hdfs.Attempt Unit) where
  outer := Agent.Delivery.rounds site.place barnConf
  inner := site.setting.actRounds
  get := World.collector
  put := fun collector world => { world with collector := collector }
  get_put := fun _ _ => rfl
  put_put := fun _ _ _ => rfl
  put_get := fun _ => rfl

/-- The name of a log file that svlogd has finished, with a time that the collector reads right. -/
structure Stamped (name : Text) : Prop where
  svlogd : Hdfs.IsSvlogdName name
  wellFormed : Hdfs.IsTai64n (Hdfs.svlogdFileNameToTaiString name)
  late : Hdfs.IsLate offset (Hdfs.svlogdFileNameToTaiString name)

/-- The runs that are looked at: svlogd creates log files with increasing times, files arrive at the
collector only through the agent and are cleaned up only by the rounds, and nothing that others
place is of the service. -/
def Meets : (site.couple barnConf).Label → World → Prop
  | .outer (.event (.create name)), world => Stamped offset name ∧ ∀ other ∈ world.feed.created,
      Hdfs.svlogdFileNameToTaiString other < Hdfs.svlogdFileNameToTaiString name
  | .outer (.event (.cleanup _ _ _)), _ => False
  | .outer (.event (.answerCleanup _ _)), _ => False
  | .inner (.event (.arrive _)), _ => False
  | .inner (.event (.place _ entry)), _ => ¬site.setting.Concerns entry
  | _, _ => True

/-- svlogd may have created log files; nothing of the service is on the target or on HDFS. -/
structure Initial (world : World) : Prop where
  agent : Agent.Delivery.Initial site.place world
  stamped : ∀ name ∈ world.feed.created, Stamped offset name
  stamps_sorted : world.feed.created.Pairwise fun first second =>
    Hdfs.svlogdFileNameToTaiString first < Hdfs.svlogdFileNameToTaiString second
  collector : site.setting.Untouched world.collector

/-- What can have become of a log file: it waits to be shipped by the agent, svlogd has deleted it
before it was shipped, or the collector has received it and not lost it. -/
inductive Accounted (world : World) (name : Text) : Prop where
  | waiting : name ∈ world.feed.kept → (∀ other ∈ world.feed.delivered, other < name) →
      Accounted world name
  | rotated : name ∉ world.feed.kept → name ∉ world.feed.delivered → Accounted world name
  | received (file : Hdfs.File) : file ∈ world.collector.received → file.getName = name →
      site.setting.NotLost world.collector file → Accounted world name

/-- What the agent has to reckon with: svlogd, changes elsewhere, and the deletion of files of the
target that are not the newest. -/
inductive Surroundings (world : World) : World → Prop where
  | event {event world'} : Agent.Delivery.occurs site.place event world = some world' →
      Surroundings world world'
  | elsewhere (collector : Hdfs.World) :
      collector.localFiles site.place.targetDir =
        world.collector.localFiles site.place.targetDir →
      Surroundings world { world with collector := collector }
  | delete (file : Hdfs.File) : Superseded site.place world.feed.delivered (.delete file) →
      Surroundings world { world with collector := world.collector.removeLocal file }

/-- While the collector cleans up, all files it may delete are superseded. -/
def Careful (delivered : List Text) : Hdfs.Phase → Prop
  | .cleaning _ _ files => ∀ file ∈ files.rdrop 1, Superseded site.place delivered (.delete file)
  | _ => True

/-- The invariant of agent and collector. -/
structure Intact (phase : Hdfs.Phase) (world : World) : Prop where
  sound : world.Sound site.place
  stamped : ∀ name ∈ world.feed.created, Stamped offset name
  stamps_sorted : world.feed.created.Pairwise fun first second =>
    Hdfs.svlogdFileNameToTaiString first < Hdfs.svlogdFileNameToTaiString second
  received : world.collector.received.map Hdfs.File.getName = world.feed.delivered
  safe : Hdfs.Safe site.setting (phase, world.collector)
  careful : Careful site world.feed.delivered phase

end Site

variable {site : Site} {offset : ℤ} {barnConf : Agent.BarnConf} {world world' : World}
  {phase phase' : Hdfs.Phase} {collector : Hdfs.World}

section Agent

/-- The target is in order whatever the rest of the collector's world is like. -/
theorem sound_elsewhere (h : world.Sound site.place)
    (hfiles : collector.localFiles site.place.targetDir =
      world.collector.localFiles site.place.targetDir) :
    World.Sound site.place { world with collector := collector } := by
  have hnames : World.placedNames site.place { world with collector := collector } =
      world.placedNames site.place := by
    rw [World.placedNames, World.placedNames, hfiles]
  refine { h with placed := ?_, parent := ?_, newest := ?_ }
  · rw [hnames]
    exact h.placed
  · rw [hfiles]
    exact h.parent
  · rw [hnames]
    exact h.newest

/-- The agent tolerates its surroundings. -/
theorem tolerable_surroundings : Agent.Delivery.Tolerable site.place site.Surroundings := by
  intro world world' h hrely
  cases hrely with
  | event hoccurs => exact h.occurs hoccurs
  | elsewhere collector hfiles => exact ⟨sound_elsewhere h hfiles, Feed.Later.refl _⟩
  | delete file hold => exact ⟨h.removeLocal hold, Feed.Later.refl _⟩

/-- Log files that are ordered by name are ordered by time. -/
theorem Site.Intact.stamp_lt (h : site.Intact offset phase world) {first second : Text}
    (hfirst : first ∈ world.feed.created) (hsecond : second ∈ world.feed.created)
    (hlt : first < second) :
    Hdfs.svlogdFileNameToTaiString first < Hdfs.svlogdFileNameToTaiString second := by
  have hboth := h.sound.feed.created_sorted.and h.stamps_sorted
  obtain ⟨before, after, hsplit⟩ := List.append_of_mem hfirst
  rw [hsplit] at hsecond hboth
  rcases List.mem_append.1 hsecond with hbefore | hafter
  · have hgreater := (List.pairwise_append.1 hboth).2.2 second hbefore first List.mem_cons_self
    exact absurd hlt hgreater.1.not_gt
  · rcases List.mem_cons.1 hafter with rfl | hlater
    · exact absurd hlt (lt_irrefl _)
    · exact ((List.pairwise_cons.1 (List.pairwise_append.1 hboth).2.1).1 second hlater).2

/-- A file that the agent delivers next may arrive at the collector. -/
theorem Site.Intact.arrives (h : site.Intact offset phase world) {name : Text}
    (hnext : world.feed.Next name) (length : ℕ) :
    site.setting.ArrivesInOrder offset world.collector
      ⟨site.place.targetDir, name, false, length⟩ := by
  have hcreated := h.sound.feed.kept_suffix.subset hnext.kept
  have hstamped := h.stamped name hcreated
  refine ⟨⟨⟨site.targetDir_eq, rfl, hstamped.svlogd⟩, hstamped.wellFormed,
    hstamped.late.after_last, ?_⟩, hstamped.late.low, hstamped.late.high⟩
  intro other hother
  have hdelivered : other.getName ∈ world.feed.delivered := by
    rw [← h.received]
    exact List.mem_map_of_mem hother
  exact h.stamp_lt (h.sound.feed.delivered_created _ hdelivered) hcreated
    (hnext.newer _ hdelivered)

/-- The file that is next is not there yet. -/
theorem deliver_collector (h : world.Sound site.place) {name : Text}
    (hnext : world.feed.Next name) (length : ℕ) :
    (world.deliver site.place name length).collector =
      world.collector.receive ⟨site.place.targetDir, name, false, length⟩ := by
  refine if_neg fun hplaced => ?_
  exact lt_irrefl _ (hnext.newer name (h.placed.subset hplaced))

/-- What is superseded stays so when more is delivered. -/
theorem Site.Careful.mono {delivered : List Text} (h : site.Careful delivered phase)
    (later : List Text) : site.Careful (delivered ++ later) phase := by
  cases phase with
  | cleaning shipped limit files => exact fun file hfile => (h file hfile).mono later
  | _ => trivial

/-- What the agent does keeps everything intact, and for the collector a file arrives at most. -/
theorem Site.Intact.agentStep (hzone : site.setting.jvm.zone = .forOffsetMillis offset)
    (h : site.Intact offset phase world)
    (hstep : Agent.Delivery.AgentStep site.place world world') :
    site.Intact offset phase world' ∧
      (Hdfs.roundContract (site.setting.orderTerms offset)).Interferes world.collector
        world'.collector := by
  have hsound := hstep.sound h.sound
  cases hstep with
  | select selector hselector => exact ⟨{ h with sound := hsound }, .refl⟩
  | deliver name length hnext =>
      have harrives := h.arrives hnext length
      have hcollector := deliver_collector h.sound hnext length
      rw [hcollector]
      refine ⟨{ h with
        sound := hsound, received := ?_, safe := ?_, careful := h.careful.mono [name] },
        .single (.arrival harrives)⟩
      · rw [hcollector]
        show (world.collector.received ++ [_]).map _ = world.feed.delivered ++ [name]
        rw [List.map_append, h.received]
        rfl
      · rw [hcollector]
        exact h.safe.receive hzone harrives

/-- So does svlogd, which the collector does not notice. -/
theorem Site.Intact.agentEvent {event : Agent.Delivery.Event}
    (hmeets : site.Meets offset barnConf (.outer (.event event)) world)
    (h : site.Intact offset phase world)
    (hoccurs : Agent.Delivery.occurs site.place event world = some world') :
    site.Intact offset phase world' ∧ world'.collector = world.collector := by
  have hsound := (h.sound.occurs hoccurs).1
  cases event with
  | create name =>
      obtain ⟨hstamped, hlater⟩ := hmeets
      obtain rfl := Option.some.inj (Option.ite_none_right_eq_some.1 hoccurs).2
      refine ⟨{ h with sound := hsound, stamped := ?_, stamps_sorted := ?_ }, rfl⟩
      · intro other hother
        rcases List.mem_append.1 hother with hold | hsame
        · exact h.stamped other hold
        · rw [List.mem_singleton.1 hsame]
          exact hstamped
      · refine List.pairwise_append.2 ⟨h.stamps_sorted, List.pairwise_singleton _ _, ?_⟩
        intro other hother last hlast
        rw [List.mem_singleton.1 hlast]
        exact hlater other hother
  | rotate =>
      obtain rfl := Option.some.inj hoccurs
      exact ⟨{ h with sound := hsound }, rfl⟩
  | touch names =>
      obtain rfl := Option.some.inj (Option.ite_none_left_eq_some.1 hoccurs).2
      exact ⟨{ h with sound := hsound }, rfl⟩
  | cleanup jvm limit minMB => exact hmeets.elim
  | answerCleanup index outcome => exact hmeets.elim

end Agent

section Collector

/-- A round leaves the service directory and what arrived there as they are, or it deletes a file
of its listing. -/
theorem localFiles_of_roundStep {t : Hdfs.Terms} {state state' : Hdfs.Phase × Hdfs.World}
    (hstep : Hdfs.RoundStep t state state') :
    state'.2.received = state.2.received ∧
      (state'.2.localFiles t.serviceDir = state.2.localFiles t.serviceDir ∨
        ∃ shipped limit files, ∃ file ∈ files.rdrop 1,
          state.1 = .cleaning shipped limit files ∧ state'.2 = state.2.removeLocal file) := by
  cases hstep with
  | internal hunobserved =>
      refine ⟨hunobserved.received_eq, .inl ?_⟩
      rw [Hdfs.World.localFiles, Hdfs.World.localFiles, hunobserved.localDirs_eq]
  | ship _ _ hadded =>
      refine ⟨hadded.received_eq, .inl ?_⟩
      rw [Hdfs.World.localFiles, Hdfs.World.localFiles, hadded.localDirs_eq]
  | delete hfile => exact ⟨rfl, .inr ⟨_, _, _, _, hfile, rfl, rfl⟩⟩
  | _ => exact ⟨rfl, .inl rfl⟩

/-- A round that starts to clean up has just listed the directory. -/
theorem Site.Intact.careful_step (h : site.Intact offset phase world)
    (hstep : Hdfs.RoundStep (site.setting.orderTerms offset) (phase, world.collector)
      (phase', collector)) : site.Careful world.feed.delivered phase' := by
  have hlisted : ∀ file ∈ (Hdfs.sortedFiles
      (world.collector.localFiles site.setting.serviceDir)).rdrop 1,
        Superseded site.place world.feed.delivered (.delete file) := by
    intro file hfile
    rw [← site.targetDir_eq] at hfile
    exact h.sound.superseded hfile
  cases hstep with
  | internal => exact h.careful
  | delete => exact h.careful
  | cleanShipped => exact hlisted
  | cleanOld => exact hlisted
  | _ => trivial

/-- A round of the collector keeps everything intact, and the agent tolerates it. -/
theorem Site.Intact.collectorStep (hzone : site.setting.jvm.zone = .forOffsetMillis offset)
    (h : site.Intact offset phase world)
    (hstep : Hdfs.RoundStep (site.setting.orderTerms offset) (phase, world.collector)
      (phase', collector)) :
    site.Intact offset phase' { world with collector := collector } ∧
      site.Surroundings world { world with collector := collector } := by
  have hrely : site.Surroundings world { world with collector := collector } := by
    rcases (localFiles_of_roundStep hstep).2 with hsame | ⟨_, _, _, file, hfile, hphase, hremoved⟩
    · refine .elsewhere collector ?_
      rw [site.targetDir_eq]
      exact hsame
    · have hcareful := h.careful
      dsimp only at hphase hremoved
      rw [hphase] at hcareful
      rw [hremoved]
      exact .delete file (hcareful file hfile)
  have hreceived : collector.received = world.collector.received :=
    (localFiles_of_roundStep hstep).1
  refine ⟨{ h with
    sound := (tolerable_surroundings _ _ h.sound hrely).1
    received := ?_
    safe := hstep.safe hzone h.safe
    careful := h.careful_step hstep }, hrely⟩
  rw [← h.received, ← hreceived]

/-- Changes elsewhere keep everything intact. -/
theorem Site.Intact.calm (hzone : site.setting.jvm.zone = .forOffsetMillis offset)
    (h : site.Intact offset phase world)
    (hcalm : site.setting.Calm world.collector collector) :
    site.Intact offset phase { world with collector := collector } ∧
      site.Surroundings world { world with collector := collector } := by
  have hfiles : collector.localFiles site.place.targetDir =
      world.collector.localFiles site.place.targetDir := by
    rw [site.targetDir_eq]
    exact hcalm.localFiles_eq
  refine ⟨{ h with
    sound := sound_elsewhere h.sound hfiles
    received := ?_
    safe := h.safe.calm hzone hcalm }, .elsewhere collector hfiles⟩
  rw [← h.received, ← hcalm.received_eq]

/-- What happens around the rounds, apart from arrivals, happens elsewhere. -/
theorem elsewhere_of_occurs {s : Hdfs.Setting} {event : Hdfs.Event} {before after : Hdfs.World}
    (hevent : ∀ file, event ≠ .arrive file) (hplace : ∀ path entry, event = .place path entry →
      ¬s.Concerns entry) (hoccurs : s.occurs event before = some after) :
    Hdfs.Elsewhere s before after := by
  have hpermits : (s.orderTerms 0).Permits event before := by
    cases event with
    | arrive file => exact absurd rfl (hevent file)
    | place path entry => exact hplace path entry rfl
    | _ => trivial
  have hhappens : (s.orderTerms 0).Happens before after := ⟨event, hpermits, hoccurs⟩
  have hreceived : after.received = before.received := by
    cases event with
    | arrive file => exact absurd rfl (hevent file)
    | relist path =>
        obtain ⟨_, _, rfl⟩ := Hdfs.relist_spec (t := s.orderTerms 0) hoccurs
        rfl
    | advance millis =>
        obtain rfl := Option.some.inj (Option.ite_none_right_eq_some.1 hoccurs).2
        rfl
    | place path entry =>
        obtain rfl := Option.some.inj (Option.ite_none_left_eq_some.1 hoccurs).2
        rfl
    | ensureDir path =>
        obtain rfl := Option.some.inj hoccurs
        rfl
    | setFault path fault =>
        obtain rfl := Option.some.inj hoccurs
        rfl
  cases hhappens.interference with
  | elsewhere h => exact h
  | arrival => simp [Hdfs.World.receive] at hreceived

end Collector

section System

/-- Agent and collector fit together. -/
theorem coupling (hzone : site.setting.jvm.zone = .forOffsetMillis offset) :
    Coupling (site.couple barnConf) (Agent.Delivery.contractAmid site.place site.Surroundings)
      (Hdfs.roundContract (site.setting.orderTerms offset))
      (fun _ _ world => world.Sound site.place) (fun _ _ _ => True) (site.Meets offset barnConf)
      (fun _ phase world => site.Intact offset phase world) where
  allowed := fun _ _ _ => trivial
  allowed' := fun _ _ _ _ _ _ => trivial
  outerEvent := by
    intro event _ phase world world' hmeets h hoccurs
    obtain ⟨hafter, hsame⟩ := h.agentEvent hmeets hoccurs
    refine ⟨hafter, .single (.event hoccurs), ?_⟩
    show ReflTransGen _ world.collector world'.collector
    rw [hsame]
  innerEvent := by
    intro event _ phase world collector hmeets h hoccurs
    have helsewhere : Hdfs.Elsewhere site.setting world.collector collector := by
      refine elsewhere_of_occurs ?_ ?_ hoccurs
      · intro file heq
        subst heq
        exact hmeets
      · intro path entry heq
        subst heq
        exact hmeets
    obtain ⟨hafter, hrely⟩ := h.calm hzone (.of_elsewhere helsewhere)
    exact ⟨hafter, .single hrely, .single (.elsewhere helsewhere)⟩
  outerStep := fun h hstep => h.agentStep hzone hstep
  innerStep := by
    intro _ phase world next collector h hstep
    obtain ⟨hafter, hrely⟩ := h.collectorStep hzone hstep
    exact ⟨hafter, .single hrely⟩
  outerStart := fun h _ =>
    ⟨(), h, .refl, Agent.Delivery.follows_dispatchNewLogs tolerable_surroundings barnConf h.sound⟩
  innerStart := by
    intro _ _ phase world h _
    obtain ⟨hafter, hrely⟩ := h.calm hzone (.beginRound world.collector)
    have hsafe := hafter.safe
    refine ⟨.ready, { hafter with
      safe := ⟨hsafe.arrived, hsafe.dated, hsafe.wellFormed, hsafe.marks, hsafe.kept, trivial⟩
      careful := trivial }, .single hrely, ?_⟩
    exact (Hdfs.actOnServiceDir_follows (Hdfs.inPhase_beginRound _)).mono fun _ _ _ _ => trivial

/-- In the beginning everything is intact. -/
theorem Site.Initial.intact (h : site.Initial offset world) : site.Intact offset .ready world where
  sound := h.agent.sound
  stamped := h.stamped
  stamps_sorted := h.stamps_sorted
  received := by rw [h.collector.received_eq, h.agent.delivered_eq, List.map_nil]
  safe := h.collector.safe
  careful := trivial

/-- As long as everything is intact, all log files are accounted for. -/
theorem Site.Intact.accounted (hzone : site.setting.jvm.zone = .forOffsetMillis offset)
    (h : site.Intact offset phase world) {name : Text} (hname : name ∈ world.feed.created) :
    site.Accounted world name := by
  by_cases hdelivered : name ∈ world.feed.delivered
  · rw [← h.received] at hdelivered
    obtain ⟨file, hfile, rfl⟩ := List.mem_map.1 hdelivered
    refine .received file hfile rfl ?_
    rcases h.safe.kept file hfile with (hstored | haged) | ⟨hlocal, hunmarked⟩
    · exact .inl hstored
    · exact .inr (.inr haged)
    · exact .inr (.inl ⟨hlocal, hunmarked.selectable hzone⟩)
  · by_cases hkept : name ∈ world.feed.kept
    · refine .waiting hkept fun other hother => ?_
      have hne : other ≠ name := fun heq => hdelivered (heq ▸ hother)
      refine (lt_or_gt_of_ne hne).resolve_right fun hgt => ?_
      -- Nothing older than what was delivered is left out while svlogd still has it.
      rcases h.sound.feed.noGap other hother name hname hgt with hmem | hgone
      · exact hdelivered hmem
      · exact hgone hkept
    · exact .rotated hkept hdelivered

/-- In every interleaving of svlogd, the rounds of an agent, the rounds of the collector and what
happens elsewhere, all log files that svlogd creates are accounted for. -/
theorem log_accounted (hzone : site.setting.jvm.zone = .forOffsetMillis offset)
    (hinitial : site.Initial offset world) {labels : List (site.couple barnConf).Label}
    {result : Hdfs.Attempt Unit} {config : (site.couple barnConf).Config}
    (hadmits : (site.couple barnConf).Admits (site.Meets offset barnConf) labels
      ⟨.done (), .done result, world⟩)
    (hrun : (site.couple barnConf).run labels ⟨.done (), .done result, world⟩ = some config) :
    ∀ name ∈ config.world.feed.created, site.Accounted config.world name := by
  have htogether : Coupling.Together (site.couple barnConf)
      (Agent.Delivery.contractAmid site.place site.Surroundings)
      (Hdfs.roundContract (site.setting.orderTerms offset))
      (fun _ _ world => world.Sound site.place) (fun _ _ _ => True)
      (fun _ phase world => site.Intact offset phase world) () .ready
      ⟨.done (), .done result, world⟩ :=
    ⟨hinitial.intact, Follows.done (Agent.Delivery.stable_sound tolerable_surroundings)
      hinitial.agent.sound, Follows.done (fun _ _ _ _ => trivial) trivial⟩
  obtain ⟨_, phase, hfinal⟩ := (coupling hzone).run_follows htogether hadmits hrun
  exact fun name hname => hfinal.invariant.accounted hzone hname

end System

section Sample

/-- The agent of the service `web` on `node1` and its service directory. -/
def Site.sample : Site where
  place := .sample
  setting := .sample
  targetDir_eq := rfl

/-- Entries of a run that need no permission. -/
def Site.routine (site : Site) : (site.couple barnConf).Label → Bool
  | .outer (.event (.create _)) | .outer (.event (.cleanup _ _ _))
  | .outer (.event (.answerCleanup _ _)) | .inner (.event (.arrive _))
  | .inner (.event (.place _ _)) => false
  | _ => true

theorem Site.meets_of_routine {label : (site.couple barnConf).Label}
    (h : site.routine label = true) (world : World) : site.Meets offset barnConf label world := by
  cases label with
  | outer label =>
      cases label with
      | event event => cases event <;> trivial
      | _ => trivial
  | inner label =>
      cases label with
      | event event => cases event <;> trivial
      | _ => trivial

/-- The agent ships two of three files; svlogd deletes the first one then. -/
def shipRun : List (Site.sample.couple ⟨0⟩).outer.Label :=
  Agent.Delivery.sampleQuery ++ Agent.Delivery.sampleShip

/-- A round of the collector fails, and the next one puts them on HDFS. -/
def roundRun : List (Site.sample.couple ⟨0⟩).inner.Label :=
  .start :: Hdfs.Setting.sample.answers
    [.fails (.io (text "stale handle")), .reads 1400000000000, .ok] ++
  .start :: Hdfs.Setting.sample.answers
    (Hdfs.smoothOutcomes 1400000000000 1 (text "combined") (text "random"))

/-- The names of the files are stamps that the collector reads right. -/
theorem stamped_sample {file : Hdfs.File} {millis : ℤ} (h : (file, millis) ∈ Hdfs.sampleDates) :
    Site.Stamped 0 file.getName where
  svlogd := (Hdfs.svlogd_sampleDates h).name
  wellFormed := (Hdfs.stamped_sampleDates h).1
  late := (Hdfs.stamped_sampleDates h).2

theorem initial_sample : Site.sample.Initial 0 World.sample where
  agent := Agent.Delivery.initial_sample
  stamped := by simp [World.sample]
  stamps_sorted := .nil
  collector := ⟨rfl, rfl, by simp [World.sample, Hdfs.World.initial, Hdfs.World.entries]⟩

/-- Two files are on HDFS, and the third one waits. -/
def shipsTwo (world : World) : Bool :=
  world.feed.created.length = 3 && world.feed.delivered.length = 2 &&
    (world.collector.entries (text "/logs/2014/05-13")).map Hdfs.Entry.content =
      [.combined [⟨Place.sample.targetDir, Agent.Delivery.sampleName, false, 1⟩,
        ⟨Place.sample.targetDir, Agent.Delivery.laterName, false, 1⟩]]

/-- All files of that run are accounted for. -/
theorem log_accounted_sample : ∃ config,
    (Site.sample.couple ⟨0⟩).run (shipRun.map .outer ++ roundRun.map .inner)
        ⟨.done (), .done (.ok ()), World.sample⟩ = some config ∧ shipsTwo config.world = true ∧
      ∀ name ∈ config.world.feed.created, Site.sample.Accounted config.world name := by
  obtain ⟨program, hships⟩ := Agent.Delivery.sampleShip_spec
  have hround : ((Site.sample.couple ⟨0⟩).inner.run roundRun
      (.done (.ok ()), World.shipped.collector)).any (fun next =>
        shipsTwo { World.shipped with collector := next.2 }) = true := by decide +kernel
  obtain ⟨next, hround, hnext⟩ := (Option.any_eq_true _ _).1 hround
  have hrun : (Site.sample.couple ⟨0⟩).run (shipRun.map .outer ++ roundRun.map .inner)
      ⟨.done (), .done (.ok ()), World.sample⟩ =
        some ⟨program, next.1, { World.shipped with collector := next.2 }⟩ := by
    rw [Couple.run_append, Couple.run_outer,
      show (Site.sample.couple ⟨0⟩).outer.run shipRun (.done (), World.sample) = _ from hships,
      Option.map_some, Option.bind_some, Couple.run_inner]
    exact congrArg _ hround
  refine ⟨_, hrun, hnext, log_accounted rfl initial_sample ?_ hrun⟩
  have hroutine : (((shipRun.drop 3).map Couple.Label.outer ++
      roundRun.map Couple.Label.inner).all Site.sample.routine) = true := by decide
  have hstamped : ∀ file ∈ Hdfs.sampleDates.map Prod.fst, Site.Stamped 0 file.getName := by
    intro file hfile
    obtain ⟨dated, hdated, rfl⟩ := List.mem_map.1 hfile
    exact stamped_sample hdated
  refine Couple.admits_cons ⟨hstamped _ (.head _), by simp [World.sample]⟩ rfl ?_
  refine Couple.admits_cons ⟨hstamped _ (.tail _ (.head _)), by decide⟩ rfl ?_
  refine Couple.admits_cons ⟨hstamped _ (.tail _ (.tail _ (.head _))), by decide⟩ rfl ?_
  exact Couple.admits_of_forall (fun label hlabel world =>
    Site.meets_of_routine (List.all_eq_true.1 hroutine label hlabel) world) _

end Sample

end Barn.Pipeline
